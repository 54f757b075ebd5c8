import Strand.Proofs.Closures
import Strand.Proofs.Histories
import Strand.Proofs.Rehearsal
import Strand.Proofs.Settlements

/-! # Oneshot — a completion settles once and tells everybody once

    * `Settling` is a call that settles a completion, while it is under way: some of
      those who had registered have been told, in order, and the others will be.
    * `CallOver` says how such a call ends: it replies that it took effect, with
      everybody told, or a panic of somebody told passes it.
    * `OneShot` is all that holds of a completion along a history.

    The main result is `completion_settles_once`. -/

namespace Strand

namespace Machine

variable {C R : Type} {B : Behavior C R} {past since : List (Machine C R)} {m n : Machine C R}
  {c : Nat} {o : Outcome Value} {w : Listener C} {ws told rest : List (Listener C)}
  {K : List (Frame C R)}

/-- Who is told what in the next move, by a frame that stands on `d` others. -/
def telling? (d : Nat) (m : Machine C R) : Option (Listener C × Outcome Value) :=
  match m.focus, m.control with
  | .release [] (.give _), .notifying (w :: _) o :: K => if K.length = d then some (w, o) else none
  | _, _ => none

/-- The call that settled `c` with `o` in the move from `n`, above `K`, is under way in
    `m`; `since` are the machines from which moves have been made meanwhile. Of those
    who had registered, `told` have been told and `rest` have not. -/
structure Settling (B : Behavior C R) (n : Machine C R) (since : List (Machine C R))
    (m : Machine C R) (c : Nat) (o : Outcome Value) (told rest : List (Listener C))
    (K : List (Frame C R)) : Prop where
  asked : n.asked? c = some (.settling o)
  pending : n.progress? c = some (.pending (told ++ rest))
  entered : (n.step B).control = .notifying (told ++ rest) o :: K
  inside : ∀ x ∈ since, K.length < x.control.length
  told : since.filterMap (telling? K.length) = told.map (·, o)
  left : .notifying rest o :: K <:+ m.control

/-- A call that settled `c` in the move from `n` has been left. -/
inductive CallOver (B : Behavior C R) (n : Machine C R) (since : List (Machine C R)) (c : Nat)
    (o : Outcome Value) (K : List (Frame C R)) : Prop where
  /-- Everybody had been told, and the reply was that it took effect. -/
  | returned {during after : List (Machine C R)} {x : Machine C R} {told : List (Listener C)}
      (hsince : since = during ++ x :: after) (hcall : Settling B n during x c o told [] K)
      (hcontrol : (x.step B).control = K)
      (hreply : (x.step B).focus =
        .release o.handles (.give (.reply (.outcome (.success (.bool true))))))
  /-- A panic of the one told last passed. -/
  | unwound {during after : List (Machine C R)} {x : Machine C R}
      {told rest : List (Listener C)} {payload : Payload} {salvage : Option (Script C)}
      (hsince : since = during ++ x :: after) (hcall : Settling B n during x c o told rest K)
      (hcontrol : x.control = .notifying rest o :: K)
      (hpanic : x.focus = .release [] (.unwind payload salvage))

theorem popping_cases (h : m.popping = true) :
    (∃ a, m.focus = .release [] (.give a)) ∨
      ∃ payload salvage, m.focus = .release [] (.unwind payload salvage) := by
  unfold popping at h
  split at h
  · next a hf => exact Or.inl ⟨a, hf⟩
  · next payload salvage hf => exact Or.inr ⟨payload, salvage, hf⟩
  · cases h

/-! ### One call -/

theorem telling?_eq_some {d : Nat} (h : m.telling? d = some (w, o)) :
    ∃ a rest K, m.focus = .release [] (.give a) ∧ m.control = .notifying (w :: rest) o :: K ∧
      K.length = d := by
  unfold telling? at h
  split at h
  · next a w' rest o' K hf hc =>
    obtain ⟨hd, heq⟩ := Option.ite_none_right_eq_some.mp h
    cases heq
    exact ⟨a, rest, K, hf, hc, hd⟩
  · cases h

/-- While somebody above is at work, nobody is told. -/
theorem Settling.telling?_eq_none (h : Settling B n since m c o told rest K)
    (hbusy : ¬ (m.control = .notifying rest o :: K ∧ m.popping = true)) :
    m.telling? K.length = none := by
  rw [Option.eq_none_iff_forall_ne_some]
  rintro ⟨w, o'⟩ htelling
  obtain ⟨a, rest', K', hf, hc, hlength⟩ := telling?_eq_some htelling
  -- both frames stand on as many others
  have hsame : .notifying rest o :: K = m.control := by
    refine h.left.eq_of_length ?_
    rw [hc, List.length_cons, List.length_cons, hlength]
  exact hbusy ⟨hsame.symm, by rw [popping, hf]⟩

/-- While somebody above is at work, the call stays as it is. -/
theorem Settling.stay (h : Settling B n since m c o told rest K)
    (hbusy : ¬ (m.control = .notifying rest o :: K ∧ m.popping = true)) :
    Settling B n (since ++ [m]) (m.step B) c o told rest K where
  asked := h.asked
  pending := h.pending
  entered := h.entered
  inside := by
    rw [List.forall_mem_append, List.forall_mem_singleton]
    have hle := h.left.length_le
    rw [List.length_cons] at hle
    exact ⟨h.inside, hle⟩
  told := by
    rw [List.filterMap_append, h.told, List.filterMap_cons_none (h.telling?_eq_none hbusy),
      List.filterMap_nil, List.append_nil]
  left := by
    by_cases hpop : m.popping = true
    · obtain ⟨fs, hfs⟩ := h.left
      cases fs with
      | nil => exact absurd ⟨hfs.symm, hpop⟩ hbusy
      | cons f fs =>
        refine List.IsSuffix.trans ⟨fs, ?_⟩ (tail_suffix_step m B)
        rw [← hfs]
        rfl
    · exact h.left.trans (suffix_step m B (Bool.eq_false_iff.mpr hpop))

/-- The next one is told. -/
theorem Settling.tell (h : Settling B n since m c o told (w :: rest) K) {a : Answer C}
    (hcontrol : m.control = .notifying (w :: rest) o :: K)
    (hfocus : m.focus = .release [] (.give a)) :
    Settling B n (since ++ [m]) (m.step B) c o (told ++ [w]) rest K where
  asked := h.asked
  pending := by simpa using h.pending
  entered := by simpa using h.entered
  inside := by
    rw [List.forall_mem_append, List.forall_mem_singleton, hcontrol]
    exact ⟨h.inside, Nat.lt_succ_self _⟩
  told := by
    have htelling : m.telling? K.length = some (w, o) := by
      simp only [telling?, hfocus, hcontrol, if_true]
    rw [List.filterMap_append, h.told, List.filterMap_cons_some htelling, List.filterMap_nil,
      List.map_append]
    rfl
  left := by
    have hstep : m.step B = (⟨m.store, K, m.focus⟩ : Machine C R).notify (w :: rest) o := by
      simp only [step, hfocus, goOn, hcontrol, deliver]
    obtain ⟨fs, hfs, -⟩ := calm_tellListener
      (((⟨m.store, K, m.focus⟩ : Machine C R).retain o.handles).push (.notifying rest o)) w o
    rw [hstep]
    exact ⟨fs, hfs.symm⟩

theorem step_of_told {a : Answer C} (hcontrol : m.control = .notifying [] o :: K)
    (hfocus : m.focus = .release [] (.give a)) :
    (m.step B).control = K ∧
      (m.step B).focus = .release o.handles (.give (.reply (.outcome (.success (.bool true))))) := by
  simp only [step, hfocus, goOn, hcontrol, deliver, notify]
  exact ⟨rfl, rfl⟩

theorem step_of_unwound {payload : Payload} {salvage : Option (Script C)}
    (hcontrol : m.control = .notifying rest o :: K)
    (hfocus : m.focus = .release [] (.unwind payload salvage)) : (m.step B).control = K := by
  simp only [step, hfocus, goOn, hcontrol, unwindFrame]
  rfl

/-- If the frame is still there, then somebody above has been at work. -/
theorem Settling.stays_of_suffix (h : Settling B n since m c o told rest K)
    (hs : .notifying rest o :: K <:+ (m.step B).control) :
    Settling B n (since ++ [m]) (m.step B) c o told rest K := by
  refine h.stay ?_
  rintro ⟨hcontrol, hpop⟩
  have hle := hs.length_le
  rw [List.length_cons] at hle
  rcases popping_cases hpop with ⟨a, hfocus⟩ | ⟨payload, salvage, hfocus⟩
  · cases rest with
    | nil =>
      rw [(step_of_told hcontrol hfocus).1] at hle
      omega
    | cons w rest =>
      -- there is one place for a frame on as many others
      have hnext := (h.tell hcontrol hfocus).left
      have heq := (List.suffix_of_suffix_length_le hs hnext (Nat.le_refl _)).eq_of_length rfl
      simp at heq
  · rw [step_of_unwound hcontrol hfocus] at hle
    omega

/-- A call that is under way goes on, or is over. -/
theorem Settling.step (h : Settling B n since m c o told rest K) :
    (∃ told' rest', Settling B n (since ++ [m]) (m.step B) c o told' rest' K) ∨
      CallOver B n (since ++ [m]) c o K := by
  by_cases hbusy : m.control = .notifying rest o :: K ∧ m.popping = true
  · obtain ⟨hcontrol, hpop⟩ := hbusy
    rcases popping_cases hpop with ⟨a, hfocus⟩ | ⟨payload, salvage, hfocus⟩
    · cases rest with
      | nil =>
        obtain ⟨hback, hreply⟩ := step_of_told hcontrol hfocus
        exact Or.inr (.returned rfl h hback hreply)
      | cons w rest => exact Or.inl ⟨_, _, h.tell hcontrol hfocus⟩
    · exact Or.inr (.unwound rfl h hcontrol hfocus)
  · exact Or.inl ⟨told, rest, h.stay hbusy⟩

theorem CallOver.step (h : CallOver B n since c o K) (x : Machine C R) :
    CallOver B n (since ++ [x]) c o K := by
  cases h with
  | returned hsince hcall hcontrol hreply =>
    exact .returned (by rw [hsince, List.append_assoc, List.cons_append]) hcall hcontrol hreply
  | unwound hsince hcall hcontrol hpanic =>
    exact .unwound (by rw [hsince, List.append_assoc, List.cons_append]) hcall hcontrol hpanic

/-! ### Where calls begin -/

/-- The call begins. -/
theorem settling_begins (hasked : m.asked? c = some (.settling o))
    (hp : m.progress? c = some (.pending ws)) (hcontrol : (m.step B).control = .notifying ws o :: K) :
    Settling B m [] (m.step B) c o [] ws K where
  asked := hasked
  pending := hp
  entered := hcontrol
  inside := List.forall_mem_nil _
  told := rfl
  left := by rw [hcontrol]

theorem suffix_of_calm (hcalm : Calm K m) {K' : List (Frame C R)}
    (h : .notifying ws o :: K' <:+ m.control) : .notifying ws o :: K' <:+ K := by
  obtain ⟨fs, hfs, hquiet⟩ := hcalm
  rw [hfs] at h
  clear hfs
  induction fs with
  | nil => exact h
  | cons f fs ih =>
    rw [List.forall_mem_cons] at hquiet
    rcases List.suffix_cons_iff.mp h with heq | h
    · cases heq
      cases hquiet.1
    · exact ih h hquiet.2

/-- A frame that tells listeners was there before, or has just told one more, or is
    that of a completion that has just settled. -/
theorem telling_begins (h : Balanced B m) (hs : .notifying ws o :: K <:+ (m.step B).control) :
    .notifying ws o :: K <:+ m.control ∨
      (∃ w a, m.control = .notifying (w :: ws) o :: K ∧ m.focus = .release [] (.give a)) ∨
      ∃ c, m.asked? c = some (.settling o) ∧ m.progress? c = some (.pending ws) ∧
        (m.step B).control = .notifying ws o :: K := by
  have hold : .notifying ws o :: K <:+ m.beneath → .notifying ws o :: K <:+ m.control ∨
      ∃ w a, m.control = .notifying (w :: ws) o :: K ∧ m.focus = .release [] (.give a) := by
    intro hs
    unfold beneath at hs
    split at hs
    · next a w rest o' K' hf hc =>
      rcases List.suffix_cons_iff.mp hs with heq | hs
      · cases heq
        exact Or.inr ⟨w, a, hc, hf⟩
      · exact Or.inl (hc ▸ hs.trans (List.suffix_cons _ _))
    · next f K' _ _ hc => exact Or.inl (hc ▸ hs.trans (List.suffix_cons _ _))
    · next f K' _ _ hc => exact Or.inl (hc ▸ hs.trans (List.suffix_cons _ _))
    · exact Or.inl hs
  have hcalm (hcalm : Calm m.beneath (m.step B)) := hold (suffix_of_calm hcalm hs)
  cases deals_step h with
  | settles hasks hp hthen hnumbers hcontrol hquiet hfocus =>
    next c o' ws' fs =>
    rw [hcontrol] at hs
    rcases List.suffix_cons_iff.mp hs with heq | hs
    · cases heq
      refine Or.inr (Or.inr ⟨c, ?_, hp, hcontrol⟩)
      rw [hasks]
      exact if_pos rfl
    · have hbelow : .notifying ws o :: K <:+ m.beneath :=
        suffix_of_calm (m := ⟨m.store, fs ++ m.beneath, m.focus⟩) ⟨fs, rfl, hquiet⟩ hs
      exact (hold hbelow).imp_right Or.inl
  | nothing _ _ _ hc => exact (hcalm hc).imp_right Or.inl
  | registers _ _ _ _ hc _ => exact (hcalm hc).imp_right Or.inl
  | tells _ _ _ _ hc _ => exact (hcalm hc).imp_right Or.inl
  | refuses _ _ _ _ hc _ => exact (hcalm hc).imp_right Or.inl
  | makes _ _ _ _ hc => exact (hcalm hc).imp_right Or.inl
  | forgets _ _ _ _ hc => exact (hcalm hc).imp_right Or.inl

/-- How a completion that stands as described heeds what it is asked, with `K` beneath.
    A listener is kept, and the reply is at once; once the completion has settled, it
    is told before the reply. To settle is to begin to tell everybody; the second time
    it is refused. -/
def Heeds (K : List (Frame C R)) (n : Machine C R) : CompletionEvent C → Progress C → Prop
  | .registered _, .pending _ => n.focus = .release [] (.give (.reply (.outcome (.success .unit))))
  | .registered w, .settled o => ∃ fs, Tells o (.replying .unit :: (fs ++ K)) n w
  | .settling o, .pending ws =>
    ∃ fs, n.control = .notifying ws o :: (fs ++ K) ∧ n.focus = .release [] (.give .nothing)
  | .settling o, .settled _ =>
    n.focus = .release o.handles (.give (.reply (.outcome (.success (.bool false)))))

/-- What a completion is asked is done in one move, and nothing is done to any other. -/
theorem heeds_step {e : CompletionEvent C} (h : Balanced B m) (hasked : m.asked? c = some e) :
    ∃ p, m.progress? c = some p ∧ Heeds m.beneath (m.step B) e p ∧
      ∀ c', (m.step B).progress? c' = if c' = c then some (p.after e) else m.progress? c' := by
  have hnone (hasks : ∀ c, m.asked? c = none) : False := by
    rw [hasks] at hasked
    cases hasked
  have honly {c' : Nat} {e' : CompletionEvent C} (hasks : ∀ c, m.asked? c = only c' e' c) :
      c = c' ∧ e' = e := by
    rw [hasks] at hasked
    obtain ⟨rfl, heq⟩ := Option.ite_none_right_eq_some.mp hasked
    exact ⟨rfl, Option.some.inj heq⟩
  have hsettled {p : Progress C} (hp : m.progress? c = some p) (hafter : p.after e = p)
      (hsame : ∀ c', (m.step B).progress? c' = m.progress? c') (c' : Nat) :
      (m.step B).progress? c' = if c' = c then some (p.after e) else m.progress? c' := by
    rw [hsame]
    split
    · next heq => rw [heq, hp, hafter]
    · rfl
  cases deals_step h with
  | nothing hasks _ _ _ => exact (hnone hasks).elim
  | makes hasks _ _ _ _ => exact (hnone hasks).elim
  | forgets hasks _ _ _ _ => exact (hnone hasks).elim
  | registers hasks hp hthen _ _ hreply =>
    obtain ⟨rfl, rfl⟩ := honly hasks
    exact ⟨_, hp, hreply, hthen⟩
  | tells hasks hp hsame _ _ htold =>
    obtain ⟨rfl, rfl⟩ := honly hasks
    exact ⟨_, hp, ⟨_, htold⟩, hsettled hp rfl hsame⟩
  | settles hasks hp hthen _ hcontrol _ hfocus =>
    obtain ⟨rfl, rfl⟩ := honly hasks
    exact ⟨_, hp, ⟨_, hcontrol, hfocus⟩, hthen⟩
  | refuses hasks hp hsame _ _ hreply =>
    obtain ⟨rfl, rfl⟩ := honly hasks
    exact ⟨_, hp, hreply, hsettled hp rfl hsame⟩

/-- Whoever is being told has been waiting for a completion that has settled. -/
theorem History.telling (hB : B.Honest) (h : History B past m)
    (hs : .notifying rest o :: K <:+ m.control) :
    ∃ c before n since told, past = before ++ n :: since ∧ Settling B n since m c o told rest K := by
  induction h generalizing rest with
  | begin onward _ hnone => cases List.suffix_nil.mp hs
  | anew h ended events hs' onward _ hle ih => cases List.suffix_nil.mp hs
  | @move past m h ih =>
    have hs' := hs
    rcases telling_begins (h.balanced hB) hs with
      hs | ⟨w, a, hcontrol, hfocus⟩ | ⟨c, hasked, hp, hcontrol⟩
    · obtain ⟨c, before, n, since, told, hpast, hcall⟩ := ih hs
      exact ⟨c, before, n, since ++ [m], told, by rw [hpast, List.append_assoc]; rfl,
        hcall.stays_of_suffix hs'⟩
    · obtain ⟨c, before, n, since, told, hpast, hcall⟩ := ih (by rw [hcontrol])
      exact ⟨c, before, n, since ++ [m], told ++ [w], by rw [hpast, List.append_assoc]; rfl,
        hcall.tell hcontrol hfocus⟩
    · exact ⟨c, past, m, [], [], rfl, settling_begins hasked hp hcontrol⟩

/-- A completion that has settled has a call that did so, under way or over. -/
theorem History.calls (hB : B.Honest) (h : History B past m) {before : List (Machine C R)}
    (hpast : past = before ++ n :: since) (hasked : n.asked? c = some (.settling o))
    (hp : n.progress? c = some (.pending ws)) :
    ∃ K, (∃ told rest, Settling B n since m c o told rest K) ∨ CallOver B n since c o K := by
  induction h generalizing since with
  | begin onward _ hnone => cases before <;> cases hpast
  | anew h ended events hs onward _ hle ih =>
    obtain ⟨K, ⟨told, rest, hcall⟩ | hover⟩ := ih hpast
    · have hleft := hcall.left
      rw [ended] at hleft
      cases List.suffix_nil.mp hleft
    · exact ⟨K, Or.inr hover⟩
  | @move past m h ih =>
    rcases List.eq_nil_or_concat since with rfl | ⟨since, x, rfl⟩
    · -- the call begins in this move
      obtain ⟨rfl, heq⟩ := List.append_inj' hpast rfl
      cases heq
      obtain ⟨p, hp', hheeds, -⟩ := heeds_step (h.balanced hB) hasked
      cases Option.some.inj (hp'.symm.trans hp)
      obtain ⟨fs, hcontrol, -⟩ := hheeds
      exact ⟨_, Or.inl ⟨[], ws, settling_begins hasked hp hcontrol⟩⟩
    · rw [List.concat_eq_append, ← List.cons_append, ← List.append_assoc] at hpast
      obtain ⟨hbefore, heq⟩ := List.append_inj' hpast rfl
      cases heq
      obtain ⟨K, ⟨told, rest, hcall⟩ | hover⟩ := ih hbefore
      · exact ⟨K, List.concat_eq_append ▸ hcall.step⟩
      · exact ⟨K, Or.inr (List.concat_eq_append ▸ hover.step m)⟩

/-! ### What becomes of a completion -/

/-- What a move does to one completion; `next` is the number that the next one gets. -/
inductive Fares (c next : Nat) :
    Option (CompletionEvent C) → Option (Progress C) → Option (Progress C) → Prop where
  | still (p : Option (Progress C)) : Fares c next none p p
  | asked (e : CompletionEvent C) (p : Progress C) : Fares c next (some e) (some p) (some (p.after e))
  | made (hc : c = next) {p : Progress C} (hp : p = .pending [] ∨ ∃ o, p = .settled o) :
      Fares c next none none (some p)
  | forgotten (o : Outcome Value) : Fares c next none (some (.settled o)) none

theorem fares_step (h : Balanced B m) (c : Nat) :
    Fares c m.numbers (m.asked? c) (m.progress? c) ((m.step B).progress? c) := by
  have hfares (e : CompletionEvent C) (c' : Nat) (p : Progress C) (hp : m.progress? c' = some p)
      (hasks : m.asked? c = only c' e c)
      (hthen : (m.step B).progress? c = if c = c' then some (p.after e) else m.progress? c) :
      Fares c m.numbers (m.asked? c) (m.progress? c) ((m.step B).progress? c) := by
    rw [hasks, hthen, only]
    by_cases heq : c = c'
    · subst heq
      rw [if_pos rfl, if_pos rfl, hp]
      exact .asked e p
    · rw [if_neg heq, if_neg heq]
      exact .still _
  cases deals_step h with
  | nothing hasks hsame _ _ =>
    have hsame : (m.step B).progress? c = m.progress? c := hsame c
    rw [hasks, hsame]
    exact .still _
  | registers hasks hp hthen _ _ _ => exact hfares _ _ _ hp (hasks c) (hthen c)
  | tells hasks hp hsame _ _ _ =>
    refine hfares _ _ _ hp (hasks c) ((hsame c).trans ?_)
    split
    · next heq => rw [heq]; exact hp
    · rfl
  | settles hasks hp hthen _ _ _ _ => exact hfares _ _ _ hp (hasks c) (hthen c)
  | refuses hasks hp hsame _ _ _ =>
    refine hfares _ _ _ hp (hasks c) ((hsame c).trans ?_)
    split
    · next heq => rw [heq]; exact hp
    · rfl
  | makes hasks hp hthen _ _ =>
    rw [hasks, hthen]
    by_cases heq : c = m.numbers
    · have hnone : m.progress? c = none := by
        rw [progress?, Table.find?_of_size_le (Nat.le_of_eq heq.symm)]
        rfl
      rw [hnone]
      exact (if_pos heq).symm ▸ .made heq hp
    · exact (if_neg heq).symm ▸ .still _
  | @forgets hasks c' o hp hthen _ _ =>
    rw [hasks, hthen]
    by_cases heq : c = c'
    · subst heq
      have hp : m.progress? c = some (.settled o) := hp
      rw [if_pos rfl, hp]
      exact .forgotten o
    · exact (if_neg heq).symm ▸ .still _

/-- A number that is given away is that of a completion. -/
theorem numbers_step (h : Balanced B m) :
    (m.step B).numbers = m.numbers ∨
      (m.step B).numbers = m.numbers + 1 ∧ (m.step B).progress? m.numbers ≠ none := by
  cases deals_step h with
  | makes _ _ hthen hnumbers _ =>
    refine Or.inr ⟨hnumbers, ?_⟩
    rw [hthen, show Machine.numbers ⟨m.store, m.beneath, m.focus⟩ = m.numbers from rfl, if_pos rfl]
    exact Option.some_ne_none _
  | nothing _ _ hnumbers _ => exact Or.inl hnumbers
  | registers _ _ _ hnumbers _ _ => exact Or.inl hnumbers
  | tells _ _ _ hnumbers _ _ => exact Or.inl hnumbers
  | settles _ _ _ hnumbers _ _ _ => exact Or.inl hnumbers
  | refuses _ _ _ hnumbers _ _ => exact Or.inl hnumbers
  | forgets _ _ _ hnumbers _ => exact Or.inl hnumbers

/-- What a completion has been asked. -/
def asked (c : Nat) (past : List (Machine C R)) : List (CompletionEvent C) :=
  past.filterMap (·.asked? c)

/-- It has been asked to settle with `o`, and only to keep listeners before. -/
def FirstSettles (c : Nat) (past : List (Machine C R)) (o : Outcome Value) : Prop :=
  ∃ (ws : List (Listener C)) (later : List (CompletionEvent C)),
    asked c past = ws.map .registered ++ .settling o :: later

/-- It was there with that outcome from the beginning. -/
def MadeSettled (B : Behavior C R) (c : Nat) (past : List (Machine C R)) (o : Outcome Value) : Prop :=
  ∃ n ∈ past, n.progress? c = none ∧ (n.step B).progress? c = some (.settled o)

/-- The times of a completion. -/
inductive Chronicle (B : Behavior C R) (c : Nat) (past : List (Machine C R)) (m : Machine C R) :
    Prop where
  | unborn (hc : m.numbers ≤ c) (hasked : asked c past = [])
      (hnever : ∀ n ∈ past, n.progress? c = none)
  | pending {ws : List (Listener C)} (hp : m.progress? c = some (.pending ws))
      (hasked : asked c past = ws.map .registered)
      (hnever : ∀ n ∈ past, ∀ o, n.progress? c ≠ some (.settled o))
  | settled {o : Outcome Value} (hp : m.progress? c = some (.settled o))
      (hfirst : FirstSettles c past o ∨ MadeSettled B c past o)
      (hsame : ∀ n ∈ past, ∀ o', n.progress? c = some (.settled o') → o' = o)
  | gone (hp : m.progress? c = none) (hc : c < m.numbers)
      (hsettled : ∃ n ∈ past, ∃ o, n.progress? c = some (.settled o))

theorem progress?_of_numbers_le (h : m.numbers ≤ c) : m.progress? c = none := by
  rw [progress?, Table.find?_of_size_le h]
  rfl

theorem asked_move (c : Nat) (past : List (Machine C R)) (m : Machine C R) :
    asked c (past ++ [m]) = asked c past ++ (m.asked? c).toList := by
  rw [asked, List.filterMap_append, ← asked]
  cases h : m.asked? c <;> simp [h]

theorem Chronicle.move (h : Chronicle B c past m) (hm : Balanced B m) :
    Chronicle B c (past ++ [m]) (m.step B) := by
  have hfares := fares_step hm c
  have hasked := asked_move c past m
  have hlast (P : Machine C R → Prop) (hpast : ∀ n ∈ past, P n) (hnow : P m) : ∀ n ∈ past ++ [m], P n := by
    rw [List.forall_mem_append, List.forall_mem_singleton]
    exact ⟨hpast, hnow⟩
  have hmem {n : Machine C R} (hn : n ∈ past) : n ∈ past ++ [m] := List.mem_append_left _ hn
  have hnow : m ∈ past ++ [m] := List.mem_append_right _ (List.mem_singleton_self m)
  generalize he : m.asked? c = e at hfares hasked
  generalize hafter : (m.step B).progress? c = q at hfares
  cases h with
  | unborn hc hnone hnever =>
    have hp := progress?_of_numbers_le hc
    rw [hp] at hfares
    have hnever := hlast (fun n => n.progress? c = none) hnever hp
    cases hfares with
    | still =>
      refine .unborn ?_ (by rw [hasked, hnone]; rfl) hnever
      rcases numbers_step hm with hsame | ⟨hnext, hthere⟩
      · exact hsame ▸ hc
      · have hne : c ≠ m.numbers := by
          intro heq
          rw [← heq, hafter] at hthere
          exact hthere rfl
        omega
    | made hc' hp' =>
      rcases hp' with rfl | ⟨o, rfl⟩
      · refine .pending hafter (by rw [hasked, hnone]; rfl) fun n hn o ho => ?_
        rw [hnever n hn] at ho
        cases ho
      · refine .settled hafter (Or.inr ⟨m, hnow, hp, hafter⟩) fun n hn o' ho => ?_
        rw [hnever n hn] at ho
        cases ho
  | @pending ws hp hws hnever =>
    rw [hp] at hfares
    have hnever := hlast (fun n => ∀ o, n.progress? c ≠ some (.settled o)) hnever fun o ho => by
      rw [hp] at ho
      cases ho
    cases hfares with
    | still => exact .pending hafter (by rw [hasked, hws, Option.toList_none, List.append_nil]) hnever
    | asked e p =>
      cases e with
      | registered w =>
        refine .pending hafter ?_ hnever
        rw [hasked, hws, List.map_append]
        rfl
      | settling o =>
        refine .settled hafter (Or.inl ⟨ws, [], ?_⟩) fun n hn o' ho => absurd ho (hnever n hn o')
        rw [hasked, hws]
        rfl
  | @settled o hp hfirst hsame =>
    rw [hp] at hfares
    have hsame := hlast (fun n => ∀ o', n.progress? c = some (.settled o') → o' = o) hsame
      fun o' ho => by
        rw [hp] at ho
        cases ho
        rfl
    have hfirst : FirstSettles c (past ++ [m]) o ∨ MadeSettled B c (past ++ [m]) o := by
      rcases hfirst with ⟨ws, later, hws⟩ | ⟨n, hn, hmade⟩
      · refine Or.inl ⟨ws, later ++ e.toList, ?_⟩
        rw [hasked, hws, List.append_assoc]
        rfl
      · exact Or.inr ⟨n, hmem hn, hmade⟩
    cases hfares with
    | still => exact .settled hafter hfirst hsame
    | asked e p => exact .settled hafter hfirst hsame
    | forgotten o =>
      refine .gone hafter ?_ ⟨m, hnow, o, hp⟩
      have hlt : c < m.numbers := by
        by_contra hle
        rw [progress?_of_numbers_le (Nat.le_of_not_lt hle)] at hp
        cases hp
      rcases numbers_step hm with hsame | ⟨hnext, -⟩ <;> omega
  | gone hp hc hsettled =>
    rw [hp] at hfares
    obtain ⟨n, hn, hsettled⟩ := hsettled
    have hnumbers := numbers_step hm
    cases hfares with
    | still => exact .gone hafter (by omega) ⟨n, hmem hn, hsettled⟩
    | made hc' => omega

theorem History.chronicle (hB : B.Honest) (h : History B past m) (c : Nat) : Chronicle B c past m := by
  induction h with
  | begin onward _ hnone =>
    exact .unborn (Nat.zero_le c) rfl (List.forall_mem_nil _)
  | move h ih => exact ih.move (h.balanced hB)
  | anew h ended events hs onward _ hle ih =>
    cases ih with
    | unborn hc hasked hnever => exact .unborn hc hasked hnever
    | pending hp hasked hnever => exact .pending hp hasked hnever
    | settled hp hfirst hsame => exact .settled hp hfirst hsame
    | gone hp hc hsettled => exact .gone hp hc hsettled

section Chronicle

variable (h : Chronicle B c past m)

include h

theorem Chronicle.asked_of_pending (hp : m.progress? c = some (.pending ws)) :
    asked c past = ws.map .registered := by
  cases h with
  | unborn hc _ _ => exact absurd ((progress?_of_numbers_le hc).symm.trans hp) (by simp)
  | pending hp' hasked _ =>
    cases Option.some.inj (hp'.symm.trans hp)
    exact hasked
  | settled hp' _ _ => cases Option.some.inj (hp'.symm.trans hp)
  | gone hp' _ _ => cases hp'.symm.trans hp

theorem Chronicle.first_of_settled (hp : m.progress? c = some (.settled o)) :
    FirstSettles c past o ∨ MadeSettled B c past o := by
  cases h with
  | unborn hc _ _ => exact absurd ((progress?_of_numbers_le hc).symm.trans hp) (by simp)
  | pending hp' _ _ => cases Option.some.inj (hp'.symm.trans hp)
  | settled hp' hfirst _ =>
    cases Option.some.inj (hp'.symm.trans hp)
    exact hfirst
  | gone hp' _ _ => cases hp'.symm.trans hp

theorem Chronicle.lasts (hn : n ∈ past) (ho : n.progress? c = some (.settled o)) :
    m.progress? c = some (.settled o) ∨ m.progress? c = none := by
  cases h with
  | unborn _ _ hnever => cases (hnever n hn).symm.trans ho
  | pending _ _ hnever => exact absurd ho (hnever n hn o)
  | settled hp _ hsame =>
    cases hsame n hn o ho
    exact Or.inl hp
  | gone hp _ _ => exact Or.inr hp

theorem Chronicle.settled_of_gone (hn : n ∈ past) (hthere : n.progress? c ≠ none)
    (hgone : m.progress? c = none) : ∃ x ∈ past, ∃ o, x.progress? c = some (.settled o) := by
  cases h with
  | unborn _ _ hnever => exact absurd (hnever n hn) hthere
  | pending hp _ _ => cases hp.symm.trans hgone
  | settled hp _ _ => cases hp.symm.trans hgone
  | gone _ _ hsettled => exact hsettled

end Chronicle

/-- A completion that is pending keeps the outcome with which it is asked to settle. -/
theorem History.settles (hB : B.Honest) {before : List (Machine C R)} {x : Machine C R}
    (h : History B (before ++ x :: since) m) (hasked : x.asked? c = some (.settling o))
    (hp : x.progress? c = some (.pending ws)) :
    m.progress? c = some (.settled o) ∨ m.progress? c = none := by
  obtain ⟨p, hp', -, hafter⟩ := heeds_step (h.before.balanced hB) hasked
  cases Option.some.inj (hp'.symm.trans hp)
  obtain ⟨y, events, hy, hstore⟩ := h.successor
  have hsettled : y.progress? c = some (.settled o) := by
    rw [progress?, hstore]
    exact (hafter c).trans (if_pos rfl)
  cases since with
  | nil =>
    cases hy
    exact Or.inl hsettled
  | cons z since =>
    cases hy
    exact (h.chronicle hB c).lasts (by simp) hsettled

/-! ### Calls that return -/

variable (B) in
/-- `m` comes back to `K` with an answer, and has not been there before. -/
def ReturnsTo (K : List (Frame C R)) (m : Machine C R) : Prop :=
  ∃ i a, (after B i m).control = K ∧ (after B i m).focus = .release [] (.give a) ∧
    ∀ i' < i, ¬ ((after B i' m).control = K ∧ (after B i' m).popping = true)

variable (B) in
/-- Everybody who is told by the frame above `K` returns. -/
def EachReturns (o : Outcome Value) (K : List (Frame C R)) (m : Machine C R) : Prop :=
  ∀ j w rest a, (after B j m).control = .notifying (w :: rest) o :: K →
    (after B j m).focus = .release [] (.give a) → ReturnsTo B (.notifying rest o :: K) (after B (j + 1) m)

theorem Settling.stays (h : Settling B n since m c o told rest K) (i : Nat)
    (hbusy : ∀ i' < i, ¬ ((after B i' m).control = .notifying rest o :: K ∧
      (after B i' m).popping = true)) :
    Settling B n (since ++ moves B i m) (after B i m) c o told rest K := by
  induction i generalizing since m with
  | zero =>
    rw [moves, List.append_nil]
    exact h
  | succ i ih =>
    have hnext := ih (h.stay (hbusy 0 (Nat.succ_pos i))) fun i' hi' =>
      hbusy (i' + 1) (Nat.succ_lt_succ hi')
    rwa [List.append_assoc] at hnext

/-- A call comes to its end, one listener after the other. -/
theorem Settling.finishes (h : Settling B n since m c o told rest K) {a : Answer C}
    (hcontrol : m.control = .notifying rest o :: K) (hfocus : m.focus = .release [] (.give a))
    (hreturn : EachReturns B o K m) :
    ∃ j a', Settling B n (since ++ moves B j m) (after B j m) c o (told ++ rest) [] K ∧
      (after B j m).control = .notifying [] o :: K ∧ (after B j m).focus = .release [] (.give a') := by
  -- the induction is on those who have not been told
  induction rest generalizing since m told a with
  | nil =>
    refine ⟨0, a, ?_, hcontrol, hfocus⟩
    rw [moves, List.append_nil, List.append_nil]
    exact h
  | cons w rest ih =>
    obtain ⟨i, a', hback, hanswer, hbusy⟩ := hreturn 0 w rest a hcontrol hfocus
    have hcall := (h.tell hcontrol hfocus).stays i hbusy
    have hnext : EachReturns B o K (after B i (m.step B)) := by
      intro j w' rest' a'' hc hf
      rw [← after_add, show i + (j + 1) = i + j + 1 from rfl]
      have hj := hreturn (i + j + 1) w' rest' a''
      rw [show after B (i + j + 1) m = after B (i + j) (m.step B) from rfl, after_add] at hj
      exact hj hc hf
    obtain ⟨j, b, hend, hc, hf⟩ := ih hcall hback hanswer hnext
    refine ⟨i + j + 1, b, ?_, ?_, ?_⟩
    · rw [List.append_assoc, List.append_assoc, ← moves_add, List.append_assoc] at hend
      rw [show after B (i + j + 1) m = after B (i + j) (m.step B) from rfl, after_add]
      exact hend
    · rw [show after B (i + j + 1) m = after B (i + j) (m.step B) from rfl, after_add]
      exact hc
    · rw [show after B (i + j + 1) m = after B (i + j) (m.step B) from rfl, after_add]
      exact hf

/-! ### All about one completion -/

/-- What holds of a completion along a history that has come to `m`. -/
structure OneShot (B : Behavior C R) (past : List (Machine C R)) (m : Machine C R) (c : Nat) :
    Prop where
  /-- As long as it is pending, it has been asked only to keep listeners, and it has
      kept them in order. -/
  pending : ∀ ws, m.progress? c = some (.pending ws) → asked c past = ws.map .registered
  /-- Its outcome is the one with which it was first asked to settle. -/
  settled : ∀ o, m.progress? c = some (.settled o) → FirstSettles c past o ∨ MadeSettled B c past o
  /-- Once it has settled, it never changes. -/
  lasting : ∀ n ∈ past, ∀ o, n.progress? c = some (.settled o) →
    m.progress? c = some (.settled o) ∨ m.progress? c = none
  /-- It does not go away before it has settled. -/
  kept : ∀ n ∈ past, n.progress? c ≠ none → m.progress? c = none →
    ∃ x ∈ past, ∃ o, x.progress? c = some (.settled o)
  /-- What it is asked it does at once: it keeps a listener or, once it has settled,
      tells it before the reply; it settles if it is pending, and refuses to otherwise. -/
  heeds : ∀ e, m.asked? c = some e → ∃ p, m.progress? c = some p ∧
    Heeds m.beneath (m.step B) e p ∧
    ∀ c', (m.step B).progress? c' = if c' = c then some (p.after e) else m.progress? c'
  /-- The call that settled it is under way or over: it has told listeners in order, by
      the time of the reply everybody, unless a panic came out of one of them. -/
  calls : ∀ before n since o ws, past = before ++ n :: since → n.asked? c = some (.settling o) →
    n.progress? c = some (.pending ws) →
    ∃ K, (∃ told rest, Settling B n since m c o told rest K) ∨ CallOver B n since c o K
  /-- If all listeners return, then the call that settles it returns. -/
  returns : ∀ o ws K, m.asked? c = some (.settling o) → m.progress? c = some (.pending ws) →
    (m.step B).control = .notifying ws o :: K → EachReturns B o K (m.step B) →
    ∃ j, (∀ x ∈ moves B j (m.step B), K.length < x.control.length) ∧
      (moves B j (m.step B)).filterMap (telling? K.length) = ws.map (·, o) ∧
      (after B j (m.step B)).control = K ∧ (after B j (m.step B)).focus =
        .release o.handles (.give (.reply (.outcome (.success (.bool true)))))

theorem returns_of_listeners (h : Balanced B m) (hasked : m.asked? c = some (.settling o))
    (hp : m.progress? c = some (.pending ws)) (hcontrol : (m.step B).control = .notifying ws o :: K)
    (hreturn : EachReturns B o K (m.step B)) :
    ∃ j, (∀ x ∈ moves B j (m.step B), K.length < x.control.length) ∧
      (moves B j (m.step B)).filterMap (telling? K.length) = ws.map (·, o) ∧
      (after B j (m.step B)).control = K ∧ (after B j (m.step B)).focus =
        .release o.handles (.give (.reply (.outcome (.success (.bool true))))) := by
  obtain ⟨p, hp', hheeds, -⟩ := heeds_step h hasked
  cases Option.some.inj (hp'.symm.trans hp)
  obtain ⟨fs, -, hfocus⟩ := hheeds
  obtain ⟨j, a, hcall, hc, hf⟩ :=
    (settling_begins hasked hp hcontrol).finishes hcontrol hfocus hreturn
  rw [List.nil_append, List.nil_append] at hcall
  -- the last move replies
  have hnone : (after B j (m.step B)).telling? K.length = none := by
    simp only [telling?, hf, hc]
  have hlast : moves B (j + 1) (m.step B) = moves B j (m.step B) ++ [after B j (m.step B)] :=
    moves_add j 1 _
  obtain ⟨hback, hreply⟩ := step_of_told (B := B) hc hf
  have hafter : after B (j + 1) (m.step B) = (after B j (m.step B)).step B :=
    after_add B j 1 _
  refine ⟨j + 1, ?_, ?_, by rw [hafter, hback], by rw [hafter, hreply]⟩
  · rw [hlast, List.forall_mem_append, List.forall_mem_singleton, hc]
    exact ⟨hcall.inside, Nat.lt_succ_self _⟩
  · rw [hlast, List.filterMap_append, hcall.told, List.filterMap_cons_none hnone,
      List.filterMap_nil, List.append_nil]

/-- Who is next is told. -/
theorem tells_next (h : Balanced B m) {a : Answer C} (hcontrol : m.control = .notifying (w :: rest) o :: K)
    (hfocus : m.focus = .release [] (.give a)) : Tells o (.notifying rest o :: K) (m.step B) w := by
  have hstep : m.step B = (⟨m.store, K, m.focus⟩ : Machine C R).notify (w :: rest) o := by
    simp only [step, hfocus, goOn, hcontrol, deliver]
  rw [hstep]
  refine tells_tellListener
    (m := ((⟨m.store, K, m.focus⟩ : Machine C R).retain o.handles).push (.notifying rest o)) w o ?_
  rintro b task rfl
  obtain ⟨st, L, focus⟩ := m
  cases hcontrol
  obtain ⟨x, hx⟩ := bridge_of_covered h.covered.pop (b := b) (by
    simp only [holdings, Frame.shares, Listener.shares, List.flatMap_cons, List.cons_append,
      List.count_cons_self]
    omega)
  exact ⟨x, (find?_bridges_retainAll st o.handles b).trans hx⟩

/-- A completion settles once and for good, and tells every listener once: those who
    came before in order before the call that settles it returns, those who come later
    at once. Nobody is told but by a completion that has settled. -/
theorem completion_settles_once (hB : B.Honest) (h : History B past m) :
    (∀ c, OneShot B past m c) ∧
    (∀ rest o K, .notifying rest o :: K <:+ m.control → ∃ c before n since told,
      past = before ++ n :: since ∧ Settling B n since m c o told rest K) ∧
    ∀ w rest o K a, m.control = .notifying (w :: rest) o :: K → m.focus = .release [] (.give a) →
      Tells o (.notifying rest o :: K) (m.step B) w := by
  have hbalanced := h.balanced hB
  refine ⟨fun c => ?_, fun rest o K hs => h.telling hB hs, fun w rest o K a hcontrol hfocus =>
    tells_next hbalanced hcontrol hfocus⟩
  have hchronicle := h.chronicle hB c
  exact
    { pending := fun ws hp => hchronicle.asked_of_pending hp
      settled := fun o hp => hchronicle.first_of_settled hp
      lasting := fun n hn o ho => hchronicle.lasts hn ho
      kept := fun n hn hthere hgone => hchronicle.settled_of_gone hn hthere hgone
      heeds := fun e hasked => heeds_step hbalanced hasked
      calls := fun before n since o ws hpast hasked hp => h.calls hB hpast hasked hp
      returns := fun o ws K hasked hp hcontrol hreturn =>
        returns_of_listeners hbalanced hasked hp hcontrol hreturn }

end Machine

/-- The outcome that a completion has settled with. -/
def Progress.outcome? {C : Type} : Progress C → Option (Outcome Value)
  | .settled o => some o
  | .pending _ => none

theorem Progress.outcome?_eq_some {C : Type} {p : Progress C} {o : Outcome Value}
    (h : p.outcome? = some o) : p = .settled o := by
  cases p with
  | settled o' => exact congrArg Progress.settled (Option.some.inj h)
  | pending ws => cases h

/-- Two sides of a completion are stored; a listener tries to settle it with 6, and then it
    is settled with 5. -/
def settlingAgain : Machine Language.Code Language.Running :=
  let side := Language.Term.apply (.lookup "s") []
  let settle (n : Int64) := Language.Term.apply .succeed
    [.mk (.type .settler) side, .mk .any (.literal (.int n))]
  Program.machine [] .empty (.sequence [.apply (.pending "c" "s") [],
    .apply (.onSettle (settle 6)) [.mk (.type .completion) (.apply (.lookup "c") [])]] (settle 5))

open Machine Strand.Language in
/-- After 85 moves the completion has been asked three times. It has told its listener,
    which has been refused, and the call that settled it with 5 has returned. -/
theorem completion_settles_once_again :
    ∃ (past : List (Machine Code Running)) (m : Machine Code Running),
      m = after behavior 85 settlingAgain ∧ History behavior past m ∧
      (asked 0 past).length = 3 ∧ m.control = [] ∧
      ∃ o, o = .success (.int 5) ∧ m.progress? 0 = some (.settled o) ∧
        (FirstSettles 0 past o ∨ MadeSettled behavior 0 past o) := by
  have hsettled : (((after behavior 85 settlingAgain).progress? 0).bind Progress.outcome?).bind
      Outcome.int? = some 5 := by
    decide +kernel
  have hasked : (asked 0 ([] ++ moves behavior 85 settlingAgain)).length = 3 := by decide +kernel
  have hcontrol : (after behavior 85 settlingAgain).control.length = 0 := by decide +kernel
  have hhistory := (History.begin (B := behavior) (.begin (.block _ _) .begin) rfl rfl :
    History behavior [] settlingAgain).moves 85
  obtain ⟨o, ho, hfive⟩ := Option.bind_eq_some_iff.mp hsettled
  obtain ⟨p, hp, houtcome⟩ := Option.bind_eq_some_iff.mp ho
  rw [Progress.outcome?_eq_some houtcome] at hp
  exact ⟨_, _, rfl, hhistory, hasked, List.length_eq_zero_iff.mp hcontrol, _,
    Outcome.int?_eq_some hfive, hp, ((completion_settles_once honest hhistory).1 0).settled _ hp⟩

end Strand
