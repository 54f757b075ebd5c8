import Strand.Proofs.Tasks

/-! # Leftovers — the tasks that a panic leaves behind

    A panic that a bridge does not catch, or that comes out of a listener, goes through
    the loop of the bridge. The loop is left with actions still on the stack, and nobody
    takes them up until the bridge is put to work again.

    * `Throws` is that a panic comes out of a task and is not caught. The completion of the
      task is abandoned in the next move (`Throws.abandons`), and whoever awaits it is told.
    * `Left` says what has become of a task when the caller is in control again.
      `tasks_left_by_panic` joins the two. -/

namespace Strand

variable {C R : Type}

namespace Machine

variable {B : Behavior C R} {b c : Nat} {m n : Machine C R} {past : List (Machine C R)}

/-- A panic comes out of the task that settles `c`, and the bridge does not catch it. -/
structure Throws (b c : Nat) (n : Machine C R) : Prop where
  top : ∃ f K, n.control = f :: K ∧ (f = .starting b c ∨ ∃ id, f = .resuming b id c)
  panics : ∃ payload salvage, n.focus = .release [] (.unwind payload salvage)
  uncaught : n.bridgeCatches b = false

/-! ### The task that panics -/

theorem Throws.step (h : n.Throws b c) : ∃ f K hs onward, n.control = f :: K ∧
    f.shares B = [.task c] ∧ (n.step B).store = n.store ∧ (n.step B).control = K ∧
      (n.step B).focus = .release (.settler c :: hs) onward := by
  obtain ⟨⟨f, K, hcontrol, hf⟩, ⟨payload, salvage, hfocus⟩, huncaught⟩ := h
  have hnot : ({ n with control := K } : Machine C R).bridgeCatches b = false := huncaught
  rw [step_of_unwind hcontrol hfocus]
  rcases hf with rfl | ⟨id, rfl⟩
  · simp only [unwindFrame, hnot]
    exact ⟨_, K, [], _, hcontrol, rfl, rfl, rfl, rfl⟩
  · simp only [unwindFrame, hnot]
    exact ⟨_, K, _, _, hcontrol, rfl, rfl, rfl, rfl⟩

/-- The settler that the task has held was the last one. -/
theorem Throws.asked (h : n.Throws b c) (hn : Balanced B n) :
    (n.step B).asked? c = some (.settling (.failure .abandoned)) ∧
      ∃ ws, (n.step B).progress? c = some (.pending ws) := by
  obtain ⟨f, K, hs, onward, hcontrol, hshares, hstore, -, hfocus⟩ := h.step (B := B)
  have hheld : 0 < holdings B n.store n.control (n.focus.shares B) (.task c) := by
    rw [holdings, hcontrol, List.flatMap_cons, hshares, List.count_append, List.count_singleton_self]
    omega
  obtain ⟨count, htally⟩ := hn.covered.own c hheld
  obtain ⟨⟨progress, settlers⟩, hk, -, hone, hpending⟩ := Store.find?_of_tally? htally
  obtain rfl : settlers = 1 := hone
  cases progress with
  | settled o => cases hpending
  | pending ws =>
    have hk' : (n.step B).store.completions.find? c = some ⟨.pending ws, 1⟩ := by rw [hstore, hk]
    refine ⟨?_, ws, by rw [progress?_of_find? hk']⟩
    simp [asked?, hfocus, lastSettler, hk']

/-- Where something is left undone, the next machine is the one that the move makes. -/
theorem History.next {before since : List (Machine C R)} (h : History B (before ++ n :: since) m)
    (hleft : (n.step B).control ≠ []) : (since ++ [m]).head? = some (n.step B) := by
  generalize hpast : before ++ n :: since = past at h
  induction h generalizing since with
  | begin => cases before <;> cases hpast
  | anew _ ended _ _ _ _ _ ih =>
    have hnext := ih hpast
    cases since with
    | nil =>
      cases hnext
      exact absurd ended hleft
    | cons z since => exact hnext
  | move h ih =>
    rcases List.eq_nil_or_concat since with rfl | ⟨since, z, rfl⟩
    · obtain ⟨-, heq⟩ := List.append_inj' hpast rfl
      cases heq
      rfl
    · rw [List.concat_eq_append, ← List.cons_append, ← List.append_assoc] at hpast
      obtain ⟨hbefore, heq⟩ := List.append_inj' hpast rfl
      cases heq
      rw [List.concat_eq_append, List.head?_append, ih hbefore]
      rfl

/-- Its completion has been abandoned by the time the caller is in control. -/
theorem Throws.abandons (h : n.Throws b c) (hB : B.Honest) (hm : History B past m) (hn : n ∈ past)
    (hback : m.control = []) : SettledWith past c (.failure .abandoned) := by
  obtain ⟨before, since, rfl⟩ := List.append_of_mem hn
  have hbalanced := hm.before.balanced hB
  obtain ⟨hasked, ws, hpending⟩ := h.asked hbalanced
  obtain ⟨f, K, hs, onward, hcontrol, -, -, hcontrol', hfocus⟩ := h.step (B := B)
  have hloop : K ≠ [] := by
    rintro rfl
    have hseated := hm.before.seated hB b
    obtain ⟨⟨f', K', heq, hf⟩, -, -⟩ := h
    obtain ⟨rfl, rfl⟩ := List.cons.inj (hcontrol.symm.trans heq)
    rcases hf with rfl | ⟨id, rfl⟩ <;> simp [works, hcontrol, Frame.seat?] at hseated
  have hleft : (n.step B).control ≠ [] := by rwa [hcontrol']
  have hnext := hm.next hleft
  cases since with
  | nil =>
    cases hnext
    exact absurd hback hleft
  | cons z since =>
    cases hnext
    -- the abandoning move leaves the loop where it is
    have hstep : ((n.step B).step B).control ≠ [] := by
      intro hnone
      have hsuffix := suffix_step (n.step B) B (by simp [popping, hfocus])
      rw [hnone, List.suffix_nil] at hsuffix
      exact hleft hsuffix
    have hmore : before ++ n :: n.step B :: since = (before ++ [n]) ++ n.step B :: since := by simp
    rw [hmore] at hm
    have hnext' := hm.next hstep
    obtain ⟨p, hp, -, hafter⟩ := heeds_step (hm.before.balanced hB) hasked
    cases Option.some.inj (hp.symm.trans hpending)
    cases since with
    | nil =>
      cases hnext'
      exact absurd hback hstep
    | cons z since =>
      cases hnext'
      refine ⟨(n.step B).step B, by simp, ?_⟩
      exact (hafter c).trans (if_pos rfl)

/-! ### What becomes of a task -/

/-- A panic passes the frame that has been busy with the task, and the settler of the task
    is let go of. -/
structure Drops (B : Behavior C R) (b c : Nat) (n : Machine C R) : Prop where
  panics : ∃ f K payload salvage seat, n.control = f :: K ∧
    n.focus = .release [] (.unwind payload salvage) ∧ f.seat? b = some seat ∧ c ∈ seat.settlers
  lets : ∃ hs onward, (n.step B).focus = .release hs onward ∧ .settler c ∈ hs

/-- The bridge is let go of. -/
def Scraps (B : Behavior C R) (b : Nat) (n : Machine C R) : Prop :=
  (n.works b).bridge ≠ none ∧ ((n.step B).works b).bridge = none

theorem settler_mem_told {ws : List (Listener C)}
    (hc : c ∈ (ws.filterMap (Listener.task? b)).map (·.settler)) :
    .settler c ∈ ws.flatMap (Listener.handles B.held) := by
  obtain ⟨task, htask, rfl⟩ := List.mem_map.mp hc
  obtain ⟨w, hw, hresume⟩ := List.mem_filterMap.mp htask
  refine List.mem_flatMap.mpr ⟨w, hw, ?_⟩
  cases w with
  | call code => cases hresume
  | resume b' task' =>
    obtain ⟨-, heq⟩ := Option.ite_none_right_eq_some.mp hresume
    cases heq
    simp [Listener.handles, Task.handles]

/-- A panic passes a seat of the bridge: the seat is taken off, and the settlers of the
    tasks that the frame has been busy with are let go of. -/
theorem unwound_seat {f : Frame C R} {K : List (Frame C R)} {payload : Payload}
    {salvage : Option (Script C)} (hcontrol : n.control = f :: K)
    (hfocus : n.focus = .release [] (.unwind payload salvage))
    (hsheds : f.sheds b (n.bridgeCatches b) = true) :
    (n.step B).control = K ∧ ((n.step B).works b).stack = (n.works b).stack ∧
      ((n.step B).works b).waits = (n.works b).waits ∧
      ∃ hs onward, (n.step B).focus = .release hs onward ∧
        ∀ seat, f.seat? b = some seat → ∀ c ∈ seat.settlers, .settler c ∈ hs := by
  rw [step_of_unwind hcontrol hfocus]
  cases f with
  | notifying ws o =>
    refine ⟨rfl, rfl, rfl, _, _, rfl, fun seat hseat c hc => ?_⟩
    cases hseat
    exact List.mem_append_left _ (settler_mem_told hc)
  | driving b' =>
    obtain rfl : b' = b := of_decide_eq_true hsheds
    refine ⟨rfl, ?_, rfl, _, _, rfl, fun seat hseat c hc => ?_⟩
    · show ((({ n with control := K } : Machine C R).onBridge b' _).works b').stack = _
      rw [works_onBridge, if_pos rfl, Works.stack, Works.stack, Option.map_map]
      rfl
    · obtain ⟨-, heq⟩ := Option.ite_none_right_eq_some.mp hseat
      cases heq
      cases hc
  | starting b' c' =>
    obtain ⟨rfl, huncaught⟩ := of_decide_eq_true hsheds
    have hnot : ({ n with control := K } : Machine C R).bridgeCatches b' = false := huncaught
    simp only [unwindFrame, hnot]
    refine ⟨rfl, rfl, rfl, _, _, rfl, fun seat hseat c hc => ?_⟩
    obtain ⟨-, heq⟩ := Option.ite_none_right_eq_some.mp hseat
    cases heq
    rw [List.mem_singleton.mp hc]
    exact List.mem_singleton_self _
  | resuming b' id c' =>
    obtain ⟨rfl, huncaught⟩ := of_decide_eq_true hsheds
    have hnot : ({ n with control := K } : Machine C R).bridgeCatches b' = false := huncaught
    simp only [unwindFrame, hnot]
    refine ⟨rfl, rfl, rfl, _, _, rfl, fun seat hseat c hc => ?_⟩
    obtain ⟨-, heq⟩ := Option.ite_none_right_eq_some.mp hseat
    cases heq
    rw [List.mem_singleton.mp hc]
    exact List.mem_cons_self
  | _ => cases hsheds

/-- A task of which the bridge loses sight is dropped, or the bridge is let go of. -/
theorem Forsakes.drops_or_scraps (h : n.Forsakes B b c) (htyped : ¬ n.Astray b) :
    n.Drops B b c ∨ n.Scraps B b := by
  obtain ⟨hloses, hheld, hgone⟩ := h
  rcases hloses with ⟨payload, salvage, f, K, hcontrol, hfocus, hsheds⟩ | hastray | ⟨hstack, hnone⟩
  · obtain ⟨hcontrol', hstack, hwaits, hs, onward, hfocus', hlets⟩ :=
      unwound_seat (B := B) hcontrol hfocus hsheds
    cases hheld with
    | queued ha hc => exact absurd (.queued (hstack ▸ ha) hc) hgone
    | waiting hk hc => exact absurd (.waiting (hwaits ▸ hk) hc) hgone
    | @seated s hs hc =>
      obtain ⟨g, hg, hseat⟩ := List.mem_filterMap.mp hs
      rw [hcontrol] at hg
      rcases List.mem_cons.mp hg with rfl | hg
      · exact Or.inl ⟨⟨g, K, payload, salvage, s, hcontrol, hfocus, hseat, hc⟩, _, _, hfocus',
          hlets s hseat c hc⟩
      · exact absurd (.seated (List.mem_filterMap.mpr ⟨g, hcontrol' ▸ hg, hseat⟩) hc) hgone
  · exact absurd hastray htyped
  · refine Or.inr ⟨fun hnot => hstack ?_, hnone⟩
    rw [Works.stack, hnot]
    rfl

/-- What has become of a task when the caller is in control. -/
inductive Left (B : Behavior C R) (b c : Nat) (past : List (Machine C R)) (m : Machine C R) :
    Prop where
  | ended {o : Outcome Value} (hlast : (taskTrail b c past).getLast? = some (.ended c o))
      (hc : SettledWith (past ++ [m]) c o)
  /-- It is to be built, or to be resumed, when the bridge is put to work again. -/
  | queued {e : TaskEvent} {s : Spot} (hlast : (taskTrail b c past).getLast? = some e)
      (hs : Rests (SettledWith (past ++ [m])) c e s) (hmem : (c, s) ∈ (m.works b).stack.map Action.spot)
      (hc : ∃ ws, m.progress? c = some (.pending ws))
  | waits {k : Nat} (hlast : (taskTrail b c past).getLast? = some (.awaits c k))
      (hk : (m.works b).Stays c (.waiting k)) (hpending : ∃ ws, m.progress? k = some (.pending ws))
      (hc : ∃ ws, m.progress? c = some (.pending ws))
  /-- A panic has taken it along. -/
  | dropped (h : ∃ n ∈ past, n.Drops B b c)
  | scrapped (h : ∃ n ∈ past, n.Scraps B b)

theorem Accounted.left (h : Accounted B b c past m) (hm : Balanced B m) (hback : m.control = [])
    (hseen : taskTrail b c past ≠ []) (htyped : ∀ n ∈ past, ¬ n.Astray b) : Left B b c past m := by
  have haccount := h.account
  obtain ⟨es, hes⟩ : ∃ es, taskTrail b c past = es := ⟨_, rfl⟩
  rw [hes] at haccount
  cases haccount with
  | unstarted => exact absurd hes hseen
  | @placed es e s hs hstays =>
    have hlast : (taskTrail b c past).getLast? = some e := by rw [hes, List.getLast?_concat]
    have hplace := inPlace hm hs hstays
    cases hstays with
    | queued ha hspot => exact .queued hlast hs (List.mem_map.mpr ⟨_, ha, hspot⟩) hplace.pending
    | seated hx => simp [works, hback] at hx
    | @waits k x hk hmem =>
      cases x with
      | settled o => simp [Wait.spots] at hmem
      | pending tasks =>
        have hstays : (m.works b).Stays c s := .waits hk hmem
        obtain ⟨task, -, heq⟩ := List.mem_map.mp hmem
        cases heq
        cases hs
        exact .waits hlast hstays (hplace.waits k hstays) hplace.pending
  | ended hnot hc => exact .ended (by rw [hes, List.getLast?_concat]) hc
  | lost hnot hn =>
    obtain ⟨n, hn, hforsakes⟩ := hn
    rcases hforsakes.drops_or_scraps (htyped n hn) with hdrops | hscraps
    · exact .dropped ⟨n, hn, hdrops⟩
    · exact .scrapped ⟨n, hn, hscraps⟩

/-- Who has awaited a completion that has been abandoned is told so. -/
inductive Told (B : Behavior C R) (b d : Nat) (past : List (Machine C R)) (m : Machine C R) : Prop where
  | resumed (h : .resumed d (.failure .abandoned) ∈ taskTrail b d past)
  | queued (h : (d, .ready (some (.failure .abandoned))) ∈ (m.works b).stack.map Action.spot)
  | dropped (h : ∃ n ∈ past, n.Drops B b d)
  | scrapped (h : ∃ n ∈ past, n.Scraps B b)

theorem Accounted.told {d : Nat} (h : Accounted B b d past m) (hB : B.Honest) (hm : History B past m)
    (hback : m.control = []) (htyped : ∀ n ∈ past, ¬ n.Astray b)
    (hc : SettledWith past c (.failure .abandoned)) (hawaits : .awaits d c ∈ taskTrail b d past) :
    Told B b d past m := by
  have hsame {o : Outcome Value} (ho : SettledWith (past ++ [m]) c o) : o = .failure .abandoned :=
    hm.settledWith_unique hB ho (hc.mono (List.subset_append_left ..))
  have hsettled : ∀ ws, m.progress? c ≠ some (.pending ws) := by
    obtain ⟨n, hn, ho⟩ := hc
    intro ws hpending
    rcases (hm.chronicle hB c).lasts hn ho with hlasts | hgone
    · cases hpending.symm.trans hlasts
    · cases hpending.symm.trans hgone
  obtain ⟨before, since, htrail⟩ := List.append_of_mem hawaits
  cases since with
  | cons x since =>
    have hchain := (List.isChain_append.mp (htrail ▸ h.goes.1)).2.1
    rw [List.isChain_cons_cons] at hchain
    cases hchain.1 with
    | again ho =>
      obtain rfl := hsame ho
      exact .resumed (by simp [htrail])
  | nil =>
    have hawaited : (taskTrail b d past).getLast? = some (.awaits d c) := by
      rw [htrail, List.getLast?_concat]
    cases h.left (hm.balanced hB) hback (List.ne_nil_of_mem hawaits) htyped with
    | ended hlast => cases hlast.symm.trans hawaited
    | queued hlast hs hmem =>
      cases hlast.symm.trans hawaited
      cases hs with
      | ready ho =>
        obtain rfl := hsame ho
        exact .queued hmem
      | waiting | told =>
        obtain ⟨a, -, ha⟩ := List.mem_map.mp hmem
        cases a <;> cases ha
    | waits hlast _ hpending =>
      cases hlast.symm.trans hawaited
      obtain ⟨ws, hpending⟩ := hpending
      exact absurd hpending (hsettled ws)
    | dropped h => exact .dropped h
    | scrapped h => exact .scrapped h

/-- Whatever panics, when the caller is in control again the bridge is not at work. A task
    that has not ended is to be taken up again, awaits a pending completion, or has been
    taken along. The completion of a task that a panic has come out of is abandoned, and
    who has awaited it is resumed with that or is to be. Actions are left only where a panic
    has not been caught or has come out of a listener. -/
theorem tasks_left_by_panic (hB : B.Honest) (h : History B past m) (hback : m.control = [])
    (htyped : ∀ n ∈ past, ¬ n.Astray b) :
    (m.works b).running = false ∧
      (∀ c, taskTrail b c past ≠ [] → Left B b c past m) ∧
      (∀ n ∈ past, ∀ c, n.Throws b c → SettledWith past c (.failure .abandoned) ∧
        ∀ d, .awaits d c ∈ taskTrail b d past → Told B b d past m) ∧
      ((m.works b).stack ≠ [] → ∃ n ∈ past, n.Scares ∨
        (n.works b).bridge ≠ none ∧ n.bridgeCatches b = false) := by
  have hidle : (m.works b).running = false := by
    have hseated := h.seated hB b
    simpa [works, hback, Seated] using hseated
  refine ⟨hidle, fun c hseen => (h.accounted hB b c).left (h.balanced hB) hback hseen htyped,
    fun n hn c hthrows => ?_, fun hstack => ?_⟩
  · have hc := hthrows.abandons hB h hn hback
    exact ⟨hc, fun d hawaits => (h.accounted hB b d).told hB h hback htyped hc hawaits⟩
  · by_contra hnone
    push Not at hnone
    refine hstack ((h.tended hB (fun n hn hthere => ?_) fun n hn => (hnone n hn).1).idle hidle)
    exact Bool.of_not_eq_false ((hnone n hn).2 hthere)

end Machine

/-! ### A task that nobody resumes -/

open Strand.Language in
/-- On a bridge that does not catch panics, a task awaits `p` and then panics, and another
    task awaits what the first one results in. Then `p` is settled. -/
def panickingAhead : Machine Code Running :=
  let known (type : ValueType) (name : String) := Operand.mk (.type type) (.apply (.lookup name) [])
  let task (awaited : String) (next : Term) := Term.apply (.run (.apply (.staged
    [.always (.apply .await [known .completion awaited]), .always next] none) [])) [known .bridge "b"]
  Program.machine [] .empty (.bind "b" (.apply (.newBridge { catchPanics := false }) [])
    (.sequence [.apply (.pending "p" "s") [],
      .apply (.assign "c") [.mk .any (task "p" (.apply (.panic (.text "boom")) []))],
      .apply (.assign "d") [.mk .any (task "c" (.apply .done [.mk .outcome (.literal .unit)]))]]
      (.apply .succeed [known .settler "s", .mk .any (.literal (.int 1))])))

/-- That the task has been resumed with a failure. -/
def TaskEvent.resumesFailure : TaskEvent → Bool
  | .resumed _ (.failure _) => true
  | _ => false

/-- That the task that settles `d` awaits `k`. -/
def TaskEvent.isAwait (d k : Nat) : TaskEvent → Bool
  | .awaits d' k' => d' = d ∧ k' = k
  | _ => false

theorem TaskEvent.awaits_of_check {d k : Nat} {es : List TaskEvent}
    (h : es.any (TaskEvent.isAwait d k) = true) : .awaits d k ∈ es := by
  obtain ⟨e, he, hawait⟩ := List.any_eq_true.mp h
  cases e with
  | awaits d' k' =>
    obtain ⟨rfl, rfl⟩ := of_decide_eq_true hawait
    exact he
  | _ => cases hawait

/-- Whether a panic is about to pass the frame that advances the task. -/
def Machine.throwsFrom (b c : Nat) (m : Machine C R) : Bool :=
  !m.bridgeCatches b && match m.focus, m.control with
    | .release [] (.unwind _ _), .resuming b' _ c' :: _ => b' = b ∧ c' = c
    | _, _ => false

theorem Machine.throws_of_check {b c : Nat} {m : Machine C R} (h : m.throwsFrom b c = true) :
    m.Throws b c := by
  obtain ⟨hcatch, h⟩ := Bool.and_eq_true_iff.mp h
  have huncaught : m.bridgeCatches b = false := by simpa using hcatch
  split at h
  · next payload salvage b' id c' K hfocus hcontrol =>
    obtain ⟨rfl, rfl⟩ := of_decide_eq_true h
    exact ⟨⟨_, K, hcontrol, Or.inr ⟨id, rfl⟩⟩, ⟨payload, salvage, hfocus⟩, huncaught⟩
  · cases h

open Machine Strand.Language in
/-- The panic ends the operation, with the other task still to be resumed. -/
theorem tasks_left_by_panic_ahead :
    ∃ (past : List (Machine Code Running)) (m n : Machine Code Running),
      History behavior past m ∧ m.control = [] ∧ (∀ x ∈ past, ¬ x.Astray 0) ∧ n ∈ past ∧
      n.Throws 0 1 ∧ .awaits 2 1 ∈ taskTrail 0 2 past ∧ (m.works 0).running = false ∧
      Left behavior 0 1 past m ∧ Left behavior 0 2 past m ∧
      SettledWith past 1 (.failure .abandoned) ∧ Told behavior 0 2 past m ∧
      ∃ x ∈ past, x.Scares ∨ (x.works 0).bridge ≠ none ∧ x.bridgeCatches 0 = false := by
  obtain ⟨run, hrun⟩ : ∃ run, run = panickingAhead := ⟨_, rfl⟩
  have htyped : (moves behavior 185 run).all (fun x => x.control.head?.all x.focus.fits) = true := by
    rw [hrun]
    decide +kernel
  have htrail : (taskTrail 0 1 (moves behavior 185 run)).length = 4 ∧
      (taskTrail 0 2 (moves behavior 185 run)).any (TaskEvent.isAwait 2 1) = true := by
    rw [hrun]
    decide +kernel
  have hends : (after behavior 185 run).control.length = 0 ∧
      ((after behavior 185 run).works 0).stack.length = 1 := by
    rw [hrun]
    decide +kernel
  have hthrows : (after behavior 168 run).throwsFrom 0 1 = true := by
    rw [hrun]
    decide +kernel
  have hhistory : History behavior (moves behavior 185 run) (after behavior 185 run) := by
    rw [hrun]
    exact (History.begin (B := behavior) (.begin _ .begin) rfl rfl).moves 185
  have hback := List.length_eq_zero_iff.mp hends.1
  have hfits : ∀ x ∈ moves behavior 185 run, ¬ x.Astray 0 := fun x hx =>
    not_astray_of_check (List.all_eq_true.mp htyped x hx)
  have hmem : after behavior 168 run ∈ moves behavior 185 run := mem_moves.mpr ⟨168, by decide, rfl⟩
  have hawaits := TaskEvent.awaits_of_check htrail.2
  obtain ⟨hidle, hleft, hthrown, hwhy⟩ := tasks_left_by_panic honest hhistory hback hfits
  obtain ⟨habandoned, htold⟩ := hthrown _ hmem 1 (throws_of_check hthrows)
  refine ⟨_, _, _, hhistory, hback, hfits, hmem, throws_of_check hthrows, hawaits, hidle,
    hleft 1 fun hnone => ?_, hleft 2 (List.ne_nil_of_mem hawaits), habandoned, htold 2 hawaits,
    hwhy fun hnone => ?_⟩
  · rw [hnone] at htrail
    cases htrail.1
  · rw [hnone] at hends
    cases hends.2

open Machine Strand.Language in
/-- The bridge is not at work, but an action is left. The task that it is about neither
    awaits anything, nor has it been resumed with a failure, nor has its completion settled. -/
theorem action_left_by_panic :
    ∃ (past : List (Machine Code Running)) (m n : Machine Code Running),
      History behavior past m ∧ m.halted = true ∧ m.control = [] ∧ n ∈ past ∧ n.Throws 0 1 ∧
      taskTrail 0 2 past ≠ [] ∧ (m.works 0).running = false ∧ (m.works 0).stack.length = 1 ∧
      (∀ k, ¬ (m.works 0).Stays 2 (.waiting k)) ∧
      (∀ e, .resumed 2 (.failure e) ∉ taskTrail 0 2 past) ∧ ∃ ws, m.progress? 2 = some (.pending ws) := by
  obtain ⟨run, hrun⟩ : ∃ run, run = panickingAhead := ⟨_, rfl⟩
  have htrail : (taskTrail 0 2 (moves behavior 185 run)).length = 3 ∧
      (taskTrail 0 2 (moves behavior 185 run)).any TaskEvent.resumesFailure = false := by
    rw [hrun]
    decide +kernel
  have hends : (after behavior 185 run).halted = true ∧ (after behavior 185 run).control.length = 0 ∧
      ((after behavior 185 run).works 0).running = false ∧
      ((after behavior 185 run).works 0).stack.map Action.settler = [2] := by
    rw [hrun]
    decide +kernel
  have hthrows : (after behavior 168 run).throwsFrom 0 1 = true := by
    rw [hrun]
    decide +kernel
  have hhistory : History behavior (moves behavior 185 run) (after behavior 185 run) := by
    rw [hrun]
    exact (History.begin (B := behavior) (.begin _ .begin) rfl rfl).moves 185
  obtain ⟨a, ha, hsettler⟩ : ∃ a ∈ ((after behavior 185 run).works 0).stack, a.settler = 2 := by
    rw [← List.mem_map, hends.2.2.2]
    exact List.mem_singleton_self 2
  have hstays : ((after behavior 185 run).works 0).Stays 2 a.spot.2 :=
    .queued ha (by rw [← hsettler, ← a.fst_spot])
  have hbalanced := hhistory.balanced honest
  refine ⟨_, _, _, hhistory, hends.1, List.length_eq_zero_iff.mp hends.2.1,
    mem_moves.mpr ⟨168, by decide, rfl⟩, throws_of_check hthrows, fun hnone => ?_, hends.2.2.1, ?_,
    fun k hk => ?_, fun e he => ?_, ?_⟩
  · rw [hnone] at htrail
    cases htrail.1
  · rw [← List.length_map Action.settler, hends.2.2.2]
    rfl
  · have hspot := (rolled hbalanced (Nat.le_refl _) 0).unique hk hstays
    cases a <;> cases hspot
  · have hany : (taskTrail 0 2 (moves behavior 185 run)).any TaskEvent.resumesFailure = true :=
      List.any_eq_true.mpr ⟨_, he, rfl⟩
    exact Bool.false_ne_true (htrail.2.symm.trans hany)
  · obtain ⟨tasks, htasks⟩ := pending_of_holds hbalanced hstays.holds
    exact pending_of_waits htasks

end Strand
