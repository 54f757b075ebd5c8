import Strand.Proofs.Closures
import Strand.Proofs.Entrances
import Strand.Proofs.Oneshot
import Strand.Proofs.Panics
import Strand.Proofs.Turns

/-! # Failures — where a failure goes that ends a pass

    A pass that ends in a failure was entered by one of three calls.

    * To evaluate a script is to be handed the failure.
    * Where a continuation was invoked from outside, the scheduler keeps the failure for
      whoever takes it next.
    * Who starts a root gets a completion. The failure that ends the first pass comes from
      the routine that finished last: if this was a root whose script has returned the
      failure, its completion has been asked to settle with it. Otherwise nobody hears
      of it.

    The main result is `failure_ending_pass_observed`. -/

namespace Strand

namespace Machine

variable {C R : Type} {B : Behavior C R} {past : List (Machine C R)} {m : Machine C R} {p : Nat}
  {K : List (Frame C R)} {a : Answer C}

/-! ### Answers on their way -/

/-- What waits is the answer, or a panic that has come instead. -/
def Onward.Brings (a : Answer C) (onward : Onward C R) : Prop :=
  onward = .give a ∨ ∃ payload salvage, onward = .unwind payload salvage

/-- The machine is back at `K`, with an answer or a panic. -/
def BackAt (K : List (Frame C R)) (m : Machine C R) : Prop := m.control = K ∧ m.popping = true

variable (B) in
/-- The first that reaches `K` is the answer, or a panic that comes out of what is let go
    of on the way. -/
def HandsOver (K : List (Frame C R)) (a : Answer C) (m : Machine C R) : Prop :=
  ∀ j, (∀ i < j, ¬ (after B i m).BackAt K) → (after B j m).BackAt K →
    ∃ onward, (after B j m).focus = .release [] onward ∧ Onward.Brings a onward

/-- The answer is on its way to `K`. -/
inductive Carried (K : List (Frame C R)) (a : Answer C) (m : Machine C R) : Prop where
  | held {hs : List Handle} {onward : Onward C R} (hcontrol : m.control = K)
      (hfocus : m.focus = .release hs onward) (hbrings : Onward.Brings a onward)
  /-- Letting go of something was interrupted. -/
  | waits {rest : List Handle} {onward : Onward C R}
      (hsuffix : .releasing rest onward :: K <:+ m.control) (hbrings : Onward.Brings a onward)
  | aborted (hfocus : m.focus = .aborted)

theorem Carried.step (h : Carried K a m) (hnot : ¬ m.BackAt K) : Carried K a (m.step B) := by
  cases h with
  | aborted hfocus => exact .aborted (by simp only [Machine.step, hfocus])
  | @held hs onward hcontrol hfocus hbrings =>
    cases hs with
    | nil =>
      refine absurd ⟨hcontrol, ?_⟩ hnot
      rcases hbrings with rfl | ⟨payload, salvage, rfl⟩ <;> simp only [popping, hfocus]
    | cons x rest =>
      simp only [Machine.step, hfocus, letGo]
      split
      · exact .held hcontrol rfl hbrings
      · next c st _ =>
        have hsettled := suffix_settle (({ m with store := st } : Machine C R).push
          (.releasing (.completion c :: rest) onward)) c (.failure .abandoned)
        rw [control_push] at hsettled
        subst hcontrol
        exact .waits hsettled hbrings
  | @waits rest onward hsuffix hbrings =>
    by_cases hpop : m.popping = true
    · obtain ⟨fs, hfs⟩ := hsuffix
      cases fs with
      | cons f fs =>
        have hleft : .releasing rest onward :: K <:+ m.control.tail := ⟨fs, by rw [← hfs]; rfl⟩
        exact .waits (hleft.trans (tail_suffix_step m B)) hbrings
      | nil =>
        -- the frame is on top, and goes on with what has waited in it
        rcases popping_cases hpop with ⟨b, hfocus⟩ | ⟨payload, salvage, hfocus⟩
        · simp only [Machine.step, hfocus, goOn, ← hfs, List.nil_append]
          exact .held rfl rfl hbrings
        · simp only [Machine.step, hfocus, goOn, ← hfs, List.nil_append]
          cases onward with
          | unwind => exact .aborted rfl
          | _ => exact .held rfl rfl (Or.inr ⟨payload, salvage, rfl⟩)
    · exact .waits (hsuffix.trans (suffix_step m B (Bool.eq_false_iff.mpr hpop))) hbrings

/-- What a call has kept for its time is let go of, and the answer goes on. -/
theorem Carried.of_holding {hs : List Handle} (hcontrol : m.control = .holding hs :: K)
    (hfocus : m.focus = .release [] (.give a)) : Carried K a (m.step B) := by
  simp only [Machine.step, hfocus, goOn, hcontrol, deliver]
  exact .held rfl rfl (Or.inl rfl)

/-- Back at `K`, the answer is there, or the panic that has come instead. -/
theorem Carried.arrives (h : Carried K a m) (hback : m.BackAt K) :
    ∃ onward, m.focus = .release [] onward ∧ Onward.Brings a onward := by
  obtain ⟨hcontrol, hpop⟩ := hback
  cases h with
  | aborted hfocus => simp [popping, hfocus] at hpop
  | @held hs onward _ hfocus hbrings =>
    refine ⟨onward, ?_, hbrings⟩
    cases hs with
    | nil => exact hfocus
    | cons x rest => simp [popping, hfocus] at hpop
  | waits hsuffix =>
    have hle := hsuffix.length_le
    rw [hcontrol, List.length_cons] at hle
    omega

theorem Carried.handsOver (h : Carried K a m) : HandsOver B K a m := by
  intro j hnot hback
  induction j generalizing m with
  | zero => exact h.arrives hback
  | succ j ih =>
    exact ih (h.step (hnot 0 (Nat.succ_pos j))) (fun i hi => hnot (i + 1) (Nat.succ_lt_succ hi)) hback

theorem HandsOver.of_step (h : HandsOver B K a (m.step B)) (hnot : ¬ m.BackAt K) :
    HandsOver B K a m := by
  intro j hj hback
  cases j with
  | zero => exact absurd hback hnot
  | succ j => exact h j (fun i hi => hj (i + 1) (Nat.succ_lt_succ hi)) hback

/-! ### Along a history -/

theorem History.supported (h : History B past m) : Supported m.control := by
  induction h with
  | begin => trivial
  | move h ih => exact (course_step _ B).supported ih
  | anew => trivial

/-- Whoever reports that a root is done has asked its completion to settle. -/
theorem History.reports (h : History B past m) {c : Nat} {o : Outcome Value} (hr : m.Reports c o) :
    ∃ x ∈ past, x.asked? c = some (.settling o) := by
  have hstart (onward : Onward C R) (hstarts : onward.starts = true) : onward.report? = none := by
    cases onward with
    | give a => cases a <;> first | rfl | cases hstarts
    | _ => rfl
  induction h with
  | begin onward hstarts =>
    rcases hr with hr | ⟨f, hf, -⟩
    · cases (hstart onward hstarts).symm.trans hr
    · cases hf
  | anew _ _ _ _ onward hstarts =>
    rcases hr with hr | ⟨f, hf, -⟩
    · cases (hstart onward hstarts).symm.trans hr
    · cases hf
  | @move past m h ih =>
    rcases (course_step m B).reports c o hr with hbefore | hasked
    · obtain ⟨x, hx, hasked⟩ := ih hbefore
      exact ⟨x, List.mem_append_left _ hx, hasked⟩
    · exact ⟨m, List.mem_append_right _ (List.mem_singleton_self m), hasked⟩

/-- A failure in the register is the outcome of the routine that finished last. -/
theorem History.register (h : History B past m) {s : Scheduler C} {e : Error}
    (hs : m.scheduler? p = some s) (he : s.register = .failure e) :
    ∃ before n since, past = before ++ n :: since ∧ n.concludes? p = some (.failure e) ∧
      ∀ x ∈ since, x.concludes? p = none := by
  induction h generalizing s with
  | begin =>
    rw [scheduler?, Store.empty, Table.find?] at hs
    cases hs
  | anew _ _ _ _ _ _ _ ih => exact ih hs he
  | @move past m h ih =>
    rcases (course_step m B).schedulers p s hs with ⟨-, settings, rfl⟩ | ⟨t, ht, -, hregister⟩
    · cases he
    · rcases hregister e he with hnow | ⟨hnone, hbefore⟩
      · exact ⟨past, m, [], rfl, hnow, List.forall_mem_nil _⟩
      · obtain ⟨before, n, since, rfl, hconcludes, hsince⟩ := ih ht hbefore
        refine ⟨before, n, since ++ [m], by simp, hconcludes, ?_⟩
        rw [List.forall_mem_append, List.forall_mem_singleton]
        exact ⟨hsince, hnone⟩

/-- A failure that nobody received is kept until it is taken. -/
theorem History.keeps {before since : List (Machine C R)} {x : Machine C R} {e : Error}
    (h : History B (before ++ x :: since) m) (hx : x.recovers? p = some e)
    (hp : p < x.store.schedulers.cells.size) (hsince : ∀ y ∈ since, y.takes p = false) :
    p < m.store.schedulers.cells.size ∧
      ∀ s, m.scheduler? p = some s → e ∈ s.unhandled := by
  have hmoved {y : Machine C R} (hy : p < y.store.schedulers.cells.size) :
      p < (y.step B).store.schedulers.cells.size := hy.trans_le (edited_step y B).size
  generalize hpast : before ++ x :: since = past at h
  induction h generalizing since with
  | begin => cases before <;> cases hpast
  | anew _ _ _ _ _ _ _ ih => exact ih hsince hpast
  | @move past m h ih =>
    have hfound {y : Machine C R} (hy : p < y.store.schedulers.cells.size) {s' : Scheduler C}
        (hs' : (y.step B).scheduler? p = some s') :
        ∃ s, y.scheduler? p = some s ∧
          s'.unhandled = (if y.takes p then [] else s.unhandled ++ (y.recovers? p).toList) := by
      rcases (course_step y B).schedulers p s' hs' with ⟨hnone, -⟩ | ⟨s, hs, hunhandled, -⟩
      · rcases (edited_step y B).edits hs' with ⟨s, hs, -⟩ | ⟨hle, -⟩
        · cases hnone.symm.trans hs
        · omega
      · exact ⟨s, hs, hunhandled⟩
    rcases List.eq_nil_or_concat since with rfl | ⟨since, y, rfl⟩
    · obtain ⟨-, heq⟩ := List.append_inj' hpast rfl
      cases heq
      refine ⟨hmoved hp, fun s' hs' => ?_⟩
      obtain ⟨s, -, hunhandled⟩ := hfound hp hs'
      have hnot : x.takes p = false := by
        unfold recovers? at hx
        split at hx
        · next hfocus _ => simp only [takes, hfocus]
        · cases hx
      rw [hunhandled, hnot, hx]
      simp
    · rw [List.concat_eq_append, ← List.cons_append, ← List.append_assoc] at hpast
      obtain ⟨hbefore, heq⟩ := List.append_inj' hpast rfl
      cases heq
      rw [List.concat_eq_append, List.forall_mem_append, List.forall_mem_singleton] at hsince
      obtain ⟨hsize, hkept⟩ := ih hsince.1 hbefore
      refine ⟨hmoved hsize, fun s' hs' => ?_⟩
      obtain ⟨s, hs, hunhandled⟩ := hfound hsize hs'
      rw [hunhandled, hsince.2]
      exact List.mem_append_left _ (hkept s hs)

/-! ### The end of a pass -/

/-- The next move ends the pass of `p` above `K`, with this failure in the register. -/
structure EndsPass (p : Nat) (K : List (Frame C R)) (e : Error) (m : Machine C R) : Prop where
  control : m.control = .pass p :: K
  focus : ∃ a, m.focus = .release [] (.give a)
  register : ∃ s s', m.scheduler? p = some s ∧ s.pick = (none, s') ∧ s.register = .failure e

theorem EndsPass.step {e : Error} (h : EndsPass p K e m) :
    (m.step B).control = K ∧ (m.step B).focus = .release [] (.give (.outcome (.failure e))) := by
  obtain ⟨a, hfocus⟩ := h.focus
  obtain ⟨s, s', hs, hpick, hregister⟩ := h.register
  have hsame : s'.register = s.register := by
    rw [← register_pickFrom s.stack s]
    exact (congrArg (fun x => x.2.register) hpick).symm
  have hs' : (⟨m.store, K, m.focus⟩ : Machine C R).scheduler? p = some s := hs
  simp only [Machine.step, hfocus, goOn, h.control, deliver]
  rw [← hfocus]
  unfold passHead
  simp only [hs', hpick, hsame, hregister]
  exact ⟨rfl, rfl⟩

/-- The failure in the register of `p`, where the next move ends the pass. -/
def ends? (p : Nat) (m : Machine C R) : Option Error :=
  match m.control, m.focus with
  | .pass q :: _, .release [] (.give _) =>
    if q = p then
      (m.scheduler? p).bind fun s => if s.pick.1.isNone then s.register.error? else none
    else none
  | _, _ => none

theorem endsPass_of_ends? {e : Error} (h : m.ends? p = some e) : EndsPass p m.control.tail e m := by
  unfold ends? at h
  split at h
  · next q K a hcontrol hfocus =>
    split at h
    · next hq =>
      obtain ⟨s, hs, hsome⟩ := Option.bind_eq_some_iff.mp h
      split at hsome
      · next hnone =>
        have hregister : s.register = .failure e := by
          cases hr : s.register <;> simp only [hr, Outcome.error?] at hsome
          · cases hsome
          · cases hsome
            rfl
        exact ⟨by rw [hcontrol, hq, List.tail_cons], ⟨a, hfocus⟩, s, s.pick.2, hs,
          Prod.ext (Option.isNone_iff_eq_none.mp hnone) rfl, hregister⟩
      · cases hsome
    · cases h
  · cases h

/-- Whoever takes failures is handed those that wait. -/
theorem taken_of_takes (h : Balanced B m) {next : R}
    (hfocus : m.focus = .release [] (.act (.ask (.takeFailures p) next))) :
    ∃ s, m.scheduler? p = some s ∧
      HandsOver B (.code next :: m.control) (.reply (.errors s.unhandled)) (m.step B) := by
  have hcovered := h.covered
  rw [hfocus] at hcovered
  obtain ⟨s, hs⟩ : ∃ s, m.store.schedulers.find? p = some s := by
    refine hcovered.alive (held_of_mem (x := .scheduler p) ?_ _ _) rfl
    simp [Focus.shares, Onward.handles, Reaction.handles, Request.handles]
  refine ⟨s, hs, Carried.handsOver ?_⟩
  have hs' : (m.push (.code next)).scheduler? p = some s := hs
  simp only [Machine.step, hfocus, goOn, act, perform, takeFailures, hs']
  exact .held rfl rfl (Or.inl rfl)

/-- A pass that ends in a failure has been entered by a call. Whoever evaluates is handed
    the failure. Where the pass was entered from outside, the failure is among those that
    the next one to take them is handed. And it is the outcome of the routine that finished
    last: if the script of a root has returned it, then the completion of the root has been
    asked to settle with it, and has done so if it was pending. -/
theorem failure_ending_pass_observed (hB : B.Honest) (h : History B past m) {e : Error}
    (hend : EndsPass p K e m) :
    Entrance p K ∧
    (∀ next L, K = .holding [.scheduler p] :: .code next :: L →
      HandsOver B (.code next :: L) (.outcome (.failure e)) (m.step B)) ∧
    (∀ L, K = .reentered p :: L → ∀ since n next, History B (past ++ m :: m.step B :: since) n →
      (∀ x ∈ since, x.takes p = false) →
      n.focus = .release [] (.act (.ask (.takeFailures p) next)) →
      ∃ es, e ∈ es ∧ HandsOver B (.code next :: n.control) (.reply (.errors es)) (n.step B)) ∧
    ∃ before n since, past = before ++ n :: since ∧ n.concludes? p = some (.failure e) ∧
      (∀ x ∈ since, x.concludes? p = none) ∧
      ∀ inner c, n.focus = .release [] (.give (.stepped (.done (.failure e)) (.root inner c))) →
        ∃ x ∈ before, x.asked? c = some (.settling (.failure e)) ∧
          ∀ ws, x.progress? c = some (.pending ws) →
            m.progress? c = some (.settled (.failure e)) ∨ m.progress? c = none := by
  obtain ⟨hcontrol, hfocus⟩ := hend.step (B := B)
  obtain ⟨s, -, hs, -, hregister⟩ := hend.register
  have hentrance : Entrance p K := by
    have hsupported := h.supported
    rw [hend.control] at hsupported
    exact hsupported.1
  refine ⟨hentrance, ?_, ?_, ?_⟩
  · rintro next L rfl
    -- the scheduler is let go of first
    refine .of_step (Carried.of_holding hcontrol hfocus).handsOver fun hback => ?_
    exact absurd (congrArg List.length (hcontrol.symm.trans hback.1)) (by simp)
  · rintro L rfl since n next hn hsince htakes
    have hrecovers : (m.step B).recovers? p = some e := by
      simp only [recovers?, hcontrol, hfocus, if_true]
    have hsize : p < (m.step B).store.schedulers.cells.size :=
      (Table.lt_size_of_find? hs).trans_le (edited_step m B).size
    rw [show past ++ m :: m.step B :: since = (past ++ [m]) ++ m.step B :: since by simp] at hn
    obtain ⟨-, hkept⟩ := hn.keeps hrecovers hsize hsince
    obtain ⟨t, ht, hhanded⟩ := taken_of_takes (hn.balanced hB) htakes
    exact ⟨t.unhandled, hkept t ht, hhanded⟩
  · obtain ⟨before, n, since, rfl, hconcludes, hsince⟩ := h.register hs hregister
    refine ⟨before, n, since, rfl, hconcludes, hsince, fun inner c hroot => ?_⟩
    obtain ⟨x, hx, hasked⟩ := h.before.reports (c := c) (o := .failure e)
      (Or.inl (by rw [hroot]; rfl))
    refine ⟨x, hx, hasked, fun ws hpending => ?_⟩
    obtain ⟨first, later, rfl⟩ := List.append_of_mem hx
    rw [List.append_assoc, List.cons_append] at h
    exact h.settles hB hasked hpending

/-- What waits below a pass is a call to evaluate. -/
def evaluating (p : Nat) : List (Frame C R) → Bool
  | .holding [.scheduler q] :: .code _ :: _ => q = p
  | _ => false

/-- What waits below a pass is a call to start a root. -/
def starting (p : Nat) : List (Frame C R) → Bool
  | .firstPass q :: _ => q = p
  | _ => false

theorem of_evaluating (h : evaluating p K = true) :
    ∃ next L, K = .holding [.scheduler p] :: .code next :: L := by
  unfold evaluating at h
  split at h
  · next q next L =>
    cases of_decide_eq_true h
    exact ⟨next, L, rfl⟩
  · cases h

theorem of_starting (h : starting p K = true) : ∃ L, K = .firstPass p :: L := by
  unfold starting at h
  split at h
  · next q L =>
    cases of_decide_eq_true h
    exact ⟨L, rfl⟩
  · cases h

end Machine

/-- A root is entered by a call. It shifts to a handler that raises `lost`, and the
    failures are taken afterwards. -/
def refusing (enter : Language.Term → Language.Operation) :
    Machine Language.Code Language.Running :=
  let scheduler := [.mk (.type .scheduler) (.apply (.lookup "s") [])]
  let error := Language.Term.apply .errorRaised [.mk (.type .text) (.literal (.text "lost"))]
  let handler := Language.Term.apply .returning [.mk .outcome (.apply .raise [.mk .error error])]
  let shift := Language.Term.apply (.shift (.mk handler none none none none)) []
  Program.machine [] .empty (.bind "s" (.apply (.newScheduler {}) [])
    (.sequence [.apply (enter (.apply (.staged [.onSuccess shift] none) [])) scheduler]
      (.apply .unhandled scheduler)))

open Machine Strand.Language in
/-- Evaluated, the root ends its pass after 84 moves, and the failure goes to whoever has
    evaluated it. -/
theorem failure_ending_pass_observed_evaluated :
    ∃ (m : Machine Code Running) (next : Running) (L : List (Frame Code Running)),
      m = after behavior 84 (refusing .evaluate) ∧
      EndsPass 0 (.holding [.scheduler 0] :: .code next :: L) (.raised "lost") m ∧
      HandsOver behavior (.code next :: L) (.outcome (.failure (.raised "lost")))
        (m.step behavior) := by
  have hends : (after behavior 84 (refusing .evaluate)).ends? 0 = some (.raised "lost") := by
    decide +kernel
  have hcalled : evaluating 0 (after behavior 84 (refusing .evaluate)).control.tail = true := by
    decide +kernel
  have hhistory := (History.begin (B := behavior) (.begin (.block _ _) .begin) rfl rfl :
    History behavior [] (refusing .evaluate)).moves 84
  have hpass := endsPass_of_ends? hends
  obtain ⟨next, L, hcontrol⟩ := of_evaluating hcalled
  rw [hcontrol] at hpass
  exact ⟨_, next, L, rfl, hpass,
    (failure_ending_pass_observed honest hhistory hpass).2.1 next L rfl⟩

open Machine Strand.Language in
/-- Started, it ends its pass after 91 moves. Its completion has been abandoned by then, and
    whoever takes the failures after 108 moves gets none. -/
theorem failure_ending_started_pass_lost :
    let run := refusing .start
    (∃ past K, History behavior past (after behavior 91 run) ∧
      EndsPass 0 (.firstPass 0 :: K) (.raised "lost") (after behavior 91 run)) ∧
    ((after behavior 91 run).settled? 0).bind Outcome.error? = some .abandoned ∧
    (after behavior 108 run).takes 0 = true ∧
    ((after behavior 108 run).scheduler? 0).map (·.unhandled) = some [] := by
  have hends : (after behavior 91 (refusing .start)).ends? 0 = some (.raised "lost") := by
    decide +kernel
  have hstarted : starting 0 (after behavior 91 (refusing .start)).control.tail = true := by
    decide +kernel
  have hhistory := (History.begin (B := behavior) (.begin (.block _ _) .begin) rfl rfl :
    History behavior [] (refusing .start)).moves 91
  have hpass := endsPass_of_ends? hends
  obtain ⟨K, hcontrol⟩ := of_starting hstarted
  rw [hcontrol] at hpass
  exact ⟨⟨_, K, hhistory, hpass⟩, by decide +kernel⟩

end Strand
