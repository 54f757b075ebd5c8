import Mathlib
import Strand.Proofs.Balance

/-! # Honesty — code holds what it has been given

    Nobody can make up a handle: code at rest, running code and coroutines hold
    handles that were handed to them (`Behavior.Honest`). Whatever an honest
    program does, no move makes more handles than it counts
    (`balanced_step`).

    * Between two requests handles are counted anew by what is held before and
      afterwards (`covered_recount`).
    * A request takes its handles from the program, a reply gives them back.
    * An answer finds what the frame on top holds, and so does a panic. -/

namespace Strand

variable {C R : Type} {B : Behavior C R}

/-- Code holds only handles that it has been given. -/
structure Behavior.Honest (B : Behavior C R) : Prop where
  start : ∀ code entry, B.heldRunning (B.start code entry) ⊆ B.held code ++ entry.handles
  react : ∀ state signal, (B.react state signal).handles B ⊆
    B.heldRunning state ++ signal.handles B.held
  move : ∀ state exiting, B.held (B.move state exiting).1 ++ B.held (B.move state exiting).2 ⊆
    B.held state
  copy : ∀ state code, B.onCopy state = some code → B.held code ⊆ B.held state

/-! ### What is held after a step of a script -/

section Handles

variable (held : C → List Handle)

/-- The handles of what a list of stages does. -/
def Entering.handles : Entering C → List Handle
  | .pass => []
  | .constant o => o.handles
  | .run code => held code

theorem Staged.handles_enter (s : Staged C) (input : Outcome Value) :
    (s.enter input).2.handles held = s.handles held ∧
      (s.enter input).1.handles held ⊆ s.handles held := by
  unfold Staged.enter
  split
  · exact ⟨rfl, List.nil_subset _⟩
  · split
    · exact ⟨rfl, List.nil_subset _⟩
    · next stage hstage =>
      have hin : stage.handles held ⊆ s.handles held := fun x hx =>
        List.mem_append_left _ (List.mem_flatMap.mpr ⟨stage, List.mem_of_getElem? hstage, hx⟩)
      cases stage with
      | always code => exact ⟨rfl, hin⟩
      | constant o => exact ⟨rfl, hin⟩
      | onSuccess code =>
        cases input with
        | success v => exact ⟨rfl, hin⟩
        | failure e => exact ⟨rfl, List.nil_subset _⟩

theorem Staged.handles_exit (s : Staged C) :
    s.exit.2.handles held = s.handles held ∧ ∀ code, s.exit.1 = some code → held code ⊆ s.handles held := by
  refine ⟨rfl, fun code hcode => ?_⟩
  simp only [Staged.exit] at hcode
  split at hcode
  · intro x hx
    refine List.mem_append_right _ ?_
    rw [hcode]
    exact hx
  · cases hcode

theorem Script.held_core {script : Script C} {state : C} (h : script.core = some state) :
    held state ⊆ script.handles held := by
  induction script with
  | own other =>
    obtain rfl := Option.some.inj h
    exact List.Subset.refl _
  | exit inner progress ih => exact List.Subset.trans (ih h) (List.subset_append_left ..)
  | root inner c ih => exact List.Subset.trans (ih h) (List.subset_append_left ..)
  | staged s => cases h
  | settled o => cases h
  | reentry k v => cases h

theorem ForcedReturn.count_next (f : ForcedReturn) (input : Outcome Value) (x : Handle) :
    (f.next input).output.handles.count x + (ForcedReturn.passOn input).handles.count x ≤
      f.output.handles.count x + input.handles.count x := by
  cases input with
  | success v => exact Nat.le_refl _
  | failure e =>
    have hnext : (f.next (.failure e)).output.handles = [] := rfl
    rw [hnext, ForcedReturn.passOn, Outcome.handles_unit, List.count_nil]
    exact Nat.zero_le _

theorem Staged.handles_after (s : Staged C) (step : Step C) : (s.after step).handles held = s.handles held := by
  cases step <;> rfl

theorem Answer.count_step (a : Answer C) (x : Handle) :
    (a.step.handles held).count x ≤ (a.handles held).count x := by
  cases a with
  | stepped step script => exact List.Sublist.count_le _ (List.sublist_append_left ..)
  | _ => first
    | exact Nat.le_refl _
    | exact Nat.zero_le _

theorem Answer.count_script (a : Answer C) (x : Handle) :
    (a.script.handles held).count x ≤ (a.handles held).count x := by
  cases a with
  | outcome o =>
    simp [Answer.script, Script.returning, Script.handles, Staged.returning, Staged.handles,
      Stage.handles, Answer.handles]
  | built script => exact Nat.le_refl _
  | _ => simp [Answer.script, Script.returning, Script.handles, Staged.returning, Staged.handles,
      Stage.handles]

end Handles

namespace Machine

variable {st : Store C} {K : List (Frame C R)} {ys : List Share} {f : Frame C R} {m : Machine C R}
  {b c p q k : Nat} {x : Handle} {script : Script C}

/-! ### Counting anew -/

theorem count_withoutHandles (hs taken : List Handle) (x : Handle) :
    (withoutHandles hs taken).count x = hs.count x - taken.count x := by
  unfold withoutHandles
  induction taken generalizing hs with
  | nil => rfl
  | cons a taken ih =>
    rw [List.foldl_cons, ih, List.count_erase, List.count_cons]
    omega

theorem covered_recount {before after : List Handle}
    (h : Covered B m.store m.control (loose before)) (hsub : after ⊆ before) :
    Covered B (m.recount before after).2.store m.control
      (loose ((m.recount before after).1 ++ after)) := by
  have hmore := retain_transit h (withoutHandles after before) fun x hx => by
    have hpos : 0 < (withoutHandles after before).count x := List.count_pos_iff.mpr hx
    rw [count_withoutHandles] at hpos
    exact mem_loose.mpr (hsub (List.count_pos_iff.mp (by omega)))
  refine hmore.sub fun y => ?_
  cases y with
  | loose x =>
    simp only [recount, ← loose_append, count_loose, List.count_append, count_withoutHandles]
    omega
  | task c => simp

/-! ### Scripts -/

theorem frames?_retainAll (st : Store C) (hs : List Handle) : (st.retainAll hs).frames? = st.frames? := by
  induction hs generalizing st with
  | nil => rfl
  | cons x hs ih => exact (ih (st.retain x)).trans (funext fun k => st.frames?_retain x k)

theorem balanced_enterStage {s : Staged C} {input : Outcome Value}
    (h : Covered B m.store m.control (loose (s.handles B.held ++ input.handles))) :
    Balanced B (m.enterStage B.held s input) := by
  obtain ⟨hsame, hsub⟩ := s.handles_enter B.held input
  have hmore : ∀ hs, hs ⊆ s.handles B.held → Covered B (m.retain hs).store m.control
      (loose hs ++ loose (s.handles B.held ++ input.handles)) :=
    fun hs hin => retain_transit h hs fun x hx => mem_loose.mpr (List.mem_append_left _ (hin hx))
  unfold enterStage
  split
  · next s' henter =>
    rw [henter] at hsame
    exact balanced_release h fun y => by
      simp only [Onward.handles, Answer.handles, Step.handles, Script.handles, ← hsame,
        List.nil_append, loose_append, List.count_append]
      omega
  · next o s' henter =>
    rw [henter] at hsame hsub
    exact balanced_release (hmore _ hsub) fun y => by
      simp only [Onward.handles, Answer.handles, Step.handles, Script.handles, 
        ← hsame, loose_append, List.count_append]
      omega
  · next code s' henter =>
    rw [henter] at hsame hsub
    refine balanced_release (Covered.push (f := .inStaged s') ((hmore _ hsub).sub fun y => ?_) trivial)
      fun y => Nat.le_refl _
    simp only [Frame.shares, Onward.handles, Entry.handles, Entering.handles, ← hsame,
      List.nil_append, loose_append, List.count_append]
    omega

theorem balanced_exitStages {s : Staged C}
    (h : Covered B m.store m.control (loose (s.handles B.held))) :
    Balanced B (m.exitStages B.held s) := by
  obtain ⟨hsame, hsub⟩ := s.handles_exit B.held
  unfold exitStages
  split
  · next code s' hexit =>
    rw [hexit] at hsame hsub
    have hmore := retain_transit h (B.held code) fun x hx => mem_loose.mpr (hsub code rfl hx)
    refine balanced_release (Covered.push (f := .inStaged s') (hmore.sub fun y => ?_) trivial)
      fun y => Nat.le_refl _
    simp only [Frame.shares, Onward.handles, Entry.handles, ← hsame, List.nil_append,
      List.append_nil, List.count_append]
    omega
  · next s' hexit =>
    rw [hexit] at hsame
    exact balanced_release h fun y => by
      simp [Onward.handles, Answer.handles, Step.handles, Script.handles, ← hsame]

theorem balanced_moveOwn (hB : B.Honest) {state : C} {exiting : Bool} {input : Outcome Value}
    (h : Covered B m.store m.control (loose (B.held state ++ input.handles))) :
    Balanced B (m.moveOwn B state exiting input) := by
  have hsub := hB.move state exiting
  unfold moveOwn
  generalize B.move state exiting = moved at hsub
  obtain ⟨next, code⟩ := moved
  dsimp only at hsub ⊢
  have hinput : Covered B m.store (.holding input.handles :: m.control) (loose (B.held state)) :=
    Covered.push (h.sub fun y => by
      simp only [Frame.shares, loose_append, List.count_append]
      omega) trivial
  have hcounted := (covered_recount (m := m.push (.holding input.handles)) hinput hsub).pop
  refine balanced_release (Covered.push (f := .inOwn next) (hcounted.sub fun y => ?_) trivial)
    fun y => Nat.le_refl _
  have hlost : (m.push (.holding input.handles)).recount (B.held state) (B.held next ++ B.held code) =
      (((m.recount (B.held state) (B.held next ++ B.held code)).1),
        (m.recount (B.held state) (B.held next ++ B.held code)).2.push (.holding input.handles)) := rfl
  simp only [hlost, Frame.shares, Onward.handles, Entry.handles, loose_append, List.count_append]
  omega

/-- A script is fed. -/
theorem balanced_advanceScript (hB : B.Honest) {input : Outcome Value}
    (h : Covered B m.store m.control (loose (script.handles B.held ++ input.handles))) :
    Balanced B (m.advanceScript B script input) := by
  cases script with
  | staged s => exact balanced_enterStage h
  | own state => exact balanced_moveOwn hB h
  | exit inner progress =>
    have hpassed : Covered B m.store (.inExit (progress.next input) :: m.control)
        (loose (inner.handles B.held ++ (ForcedReturn.passOn input).handles)) := by
      refine Covered.push (f := .inExit (progress.next input)) (h.sub fun y => ?_) trivial
      cases y with
      | loose x =>
        have hle := progress.count_next input x
        simp only [Frame.shares, Script.handles, loose_append, List.count_append, count_loose]
        omega
      | task c => simp [Frame.shares]
    unfold advanceScript
    dsimp only
    split
    · exact balanced_advance hpassed fun y => Nat.le_refl _
    · refine balanced_exit (Covered.push (f := .inExit (progress.next input)) (Covered.push
        (f := .holding (ForcedReturn.passOn input).handles) (hpassed.pop.sub fun y => ?_) trivial)
        trivial) fun y => Nat.le_refl _
      simp only [Frame.shares, loose_append, List.count_append]
      omega
  | settled stored =>
    cases input with
    | failure e =>
      exact balanced_release h fun y => by
        simp [Onward.handles, Answer.handles, Step.handles, Script.handles, Outcome.handles]
    | success v =>
      have hmore := retain_transit h stored.handles fun x hx => mem_loose.mpr
        (List.mem_append_left _ hx)
      exact balanced_release hmore fun y => by
        simp only [Onward.handles, Answer.handles, Step.handles, Script.handles, Outcome.handles,
          loose_append, List.count_append]
        omega
  | reentry k value =>
    cases value with
    | none =>
      exact balanced_release h fun y => by
        simp only [Onward.handles, Answer.handles, Step.handles, Script.handles, List.nil_append,
          loose_append, List.count_append]
        omega
    | some v =>
      refine balanced_invoke (m := (m.push (.inReentry k)).push (.holding input.handles))
        (Covered.push (f := .holding input.handles) (Covered.push (f := .inReentry k)
          (h.sub fun y => ?_) trivial) trivial) ((keeps_top (by simp [Frame.shares]) _).push _)
      simp only [Frame.shares, Script.handles, Option.map_some, Option.getD_some, loose_append,
        loose_cons, loose_nil, List.count_append, List.count_cons, List.count_nil]
      omega
  | root inner c =>
    refine balanced_advance (Covered.push (f := .inRoot c) (h.sub fun y => ?_) trivial)
      fun y => Nat.le_refl _
    simp only [Frame.shares, Script.handles, loose_append, loose_cons, loose_nil, List.count_append]
    omega

/-- A script is made to return. -/
theorem balanced_exitScript (hB : B.Honest)
    (h : Covered B m.store m.control (loose (script.handles B.held))) :
    Balanced B (m.exitScript B script) := by
  have hdone : Balanced B (m.stepDone [] .unit script) := balanced_release h fun y => by
    simp [Onward.handles, Answer.handles, Step.handles]
  cases script with
  | staged s => exact balanced_exitStages h
  | own state => exact balanced_moveOwn hB (h.sub fun y => by simp [Script.handles])
  | root inner c =>
    refine balanced_exit (Covered.push (f := .inRoot c) (h.sub fun y => ?_) trivial)
      fun y => Nat.le_refl _
    simp only [Frame.shares, Script.handles, loose_append, loose_cons, loose_nil, List.count_append]
    omega
  | exit inner progress => exact hdone
  | settled stored => exact hdone
  | reentry k value => exact hdone

/-- Who lends a script holds what it holds. -/
theorem held_of_lends (hlent : Lends st.frames? script K) (hx : x ∈ script.handles B.held) :
    0 < holdings B st K ys (.loose x) := by
  have hframe : ∀ (f : Frame C R) (rest : List (Frame C R)), .loose x ∈ f.shares B →
      0 < holdings B st (f :: rest) ys (.loose x) := fun f rest hmem => (keeps_top hmem rest).held st ys
  cases K with
  | nil => cases hlent
  | cons f rest =>
    cases f with
    | capturing p id handler frames copies left =>
      obtain ⟨frame, hmem, rfl⟩ := hlent
      refine hframe _ _ (mem_loose.mpr (List.mem_append_left _ (List.mem_append_right _ ?_)))
      exact List.mem_flatMap.mpr ⟨frame, hmem, hx⟩
    | keepingCopy i kept =>
      obtain rfl : kept = script := hlent
      exact hframe _ _ (mem_loose.mpr hx)
    | reinstating k v copies left =>
      obtain ⟨fs, hfs, frame, hmem, rfl⟩ := hlent
      obtain ⟨snapshot, hk, rfl⟩ := Option.map_eq_some_iff.mp hfs
      have hin : x ∈ snapshot.handles B.held := List.mem_flatMap.mpr ⟨frame, hmem, hx⟩
      have hpos : 0 < (loose (snapshot.handles B.held)).count (.loose x) := by
        rw [count_loose]
        exact List.count_pos_iff.mpr hin
      have hle : _ ≤ _ := Table.le_total hk (fun t => (loose (t.handles B.held)).count (.loose x))
      simp only [holdings, Store.held]
      omega
    | _ => cases hlent

/-- A script is copied. -/
theorem balanced_copyScript (hB : B.Honest) (h : Covered B m.store m.control [])
    (hlent : Lends m.store.frames? script m.control) : Balanced B (m.copyScript B script) := by
  have hmore : ∀ hs, hs ⊆ script.handles B.held →
      Covered B (m.retain hs).store m.control (loose hs ++ []) :=
    fun hs hsub => h.retain hs fun x hx _ => held_of_lends hlent (hsub hx)
  unfold copyScript
  split
  · next code hcode =>
    obtain ⟨state, hcore, hcopy⟩ := Option.bind_eq_some_iff.mp hcode
    have hheld := hmore (B.held code)
      (List.Subset.trans (hB.copy state code hcopy) (Script.held_core B.held hcore))
    refine balanced_release (covered_push_empty (f := .ignoring) (covered_push_empty
      (f := .copying script) hheld rfl ?_) rfl trivial) fun y => by
        simp [Onward.handles, Entry.handles]
    show Lends (m.store.retainAll (B.held code)).frames? script m.control
    rw [frames?_retainAll]
    exact hlent
  · exact balanced_release (hmore _ (List.Subset.refl _)) fun y => by
      simp [Onward.handles, Answer.handles]

/-! ### Shared variables and kept scripts -/

theorem covered_hold {hs : List Handle} (h : Covered B st K (loose (x :: hs))) :
    Covered B st (.holding [x] :: K) (loose hs) :=
  Covered.push h trivial

/-- A variable is named once, so what it holds is not among the others. -/
theorem count_lookup (shared : List (String × Value)) (name : String) (x : Handle) :
    ((shared.filter fun entry => entry.1 ≠ name).flatMap fun entry => entry.2.handles).count x +
        (((shared.lookup name).map Value.handles).getD []).count x ≤
      (shared.flatMap fun entry => entry.2.handles).count x := by
  induction shared with
  | nil => exact Nat.le_refl _
  | cons entry shared ih =>
    obtain ⟨key, v⟩ := entry
    by_cases heq : key = name
    · subst heq
      have hrest : ((shared.filter fun entry => entry.1 ≠ key).flatMap
          fun entry => entry.2.handles).count x ≤
            (shared.flatMap fun entry => entry.2.handles).count x :=
        List.Sublist.count_le _ (List.filter_sublist.flatMap _)
      rw [List.lookup_cons_self, List.filter_cons_of_neg (by simp)]
      simp only [Option.map_some, Option.getD_some, List.flatMap_cons, List.count_append]
      omega
    · have hlookup : ((key, v) :: shared).lookup name = shared.lookup name := by
        rw [List.lookup_cons, beq_false_of_ne (Ne.symm heq)]
      rw [hlookup, List.filter_cons_of_pos (by simpa using heq)]
      simp only [List.flatMap_cons, List.count_append]
      omega

/-- A variable is replaced, and its old value comes out. -/
theorem covered_replaceShared (name : String) {shared : List (String × Value)} {ins : List Handle}
    (h : Covered B m.store m.control (loose ins))
    (hshared : ∀ x, (shared.flatMap fun entry => entry.2.handles).count x ≤ ins.count x +
      ((m.store.shared.filter fun entry => entry.1 ≠ name).flatMap
        fun entry => entry.2.handles).count x) :
    Covered B { m.store with shared } m.control
      (loose (((m.store.shared? name).map Value.handles).getD [])) := by
  have hafter : Covered B { m.store with shared } m.control
      (loose (((m.store.shared? name).map Value.handles).getD []) ++ []) := by
    refine Covered.replaceShared (loose ins) _ (by rwa [List.append_nil]) fun y => ?_
    cases y with
    | loose x =>
      have hcount := count_lookup m.store.shared name x
      have hle := hshared x
      simp only [Store.shared?, count_loose]
      omega
    | task c => simp
  rwa [List.append_nil] at hafter

theorem balanced_takeKept {i : Nat} {dropped : List Handle}
    {f : Script C → Machine C R → Machine C R}
    (h : Covered B m.store m.control (loose (.coroutine i :: dropped)))
    (hf : ∀ script m', Covered B m'.store m'.control (loose (script.handles B.held ++ dropped)) →
      Balanced B (f script m')) : Balanced B (m.takeKept i dropped f) := by
  unfold takeKept
  split
  · next script positioned hi =>
    have htaken : Covered B _ m.control
        (loose (script.handles B.held) ++ loose (.coroutine i :: dropped)) :=
      Covered.onKept [] (loose (script.handles B.held)) h (fun _ => ⟨none, positioned⟩) (fun k hk y => by
        obtain rfl := Option.some.inj (hi.symm.trans hk)
        simp only [Kept.handles, Option.map_none, Option.map_some, Option.getD_none,
          Option.getD_some, loose_nil, List.count_nil]
        omega) fun hnone => absurd (hi.symm.trans hnone) (by simp)
    refine hf script _ (covered_hold (htaken.sub fun y => ?_))
    simp only [loose_append, loose_cons, List.count_append, List.count_cons]
    omega
  · exact balanced_release h fun y => by
      simp only [Onward.handles, Answer.handles, Reply.handles, List.append_nil, loose_append,
        loose_cons, loose_nil, List.count_append, List.count_cons, List.count_nil]
      omega

theorem covered_putBack {i : Nat}
    (h : Covered B m.store m.control (loose (script.handles B.held) ++ ys)) :
    Covered B (m.putBack i script).store m.control ys := by
  refine Covered.onKept _ [] h (fun k => { k with script := some script }) (fun k _ y => ?_)
    fun _ y => Nat.zero_le _
  simp only [Kept.handles, Option.map_some, Option.getD_some, List.count_nil]
  omega

theorem balanced_keep {positioned : Bool}
    (h : Covered B m.store m.control (loose (script.handles B.held))) :
    Balanced B (m.keep script positioned) := by
  have hkept := Covered.allocKept (x := ⟨some script, positioned⟩) [] (by rwa [List.append_nil])
  exact balanced_release hkept fun y => by
    simp [Onward.handles, Answer.handles, Reply.handles, Outcome.handles]

/-! ### Requests -/

theorem balanced_evaluate {code : C}
    (h : Covered B m.store m.control (loose (.scheduler p :: B.held code))) :
    Balanced B (m.evaluate B.held p code) := by
  have hheld := covered_hold h
  unfold evaluate
  dsimp only
  split
  · exact balanced_release hheld fun y => by
      simp [Onward.handles, Answer.handles, Reply.handles, Outcome.handles]
  · exact balanced_release (covered_push_empty (f := .opening p none) hheld rfl trivial) fun y => by
      simp [Onward.handles, Entry.handles]

theorem balanced_start {code : C}
    (h : Covered B m.store m.control (loose (.scheduler p :: B.held code))) :
    Balanced B (m.start B.held p code) := by
  have hheld := covered_hold h
  unfold start
  dsimp only
  split
  · have hsettled : Covered B _ _ (.loose (.completion _) :: loose (B.held code)) :=
      covered_newSettled (m := m.push (.holding [.scheduler p])) (o := .failure .reentrant) hheld
    exact balanced_release hsettled fun y => by
      simp only [Onward.handles, Answer.handles, Reply.handles, Outcome.handles, handles_handle,
        loose_append, loose_cons, loose_nil, List.count_append, List.count_cons, List.count_nil]
      omega
  · obtain ⟨hnew, -⟩ := covered_newCompletion (m := m.push (.holding [.scheduler p])) hheld
    generalize hmade : (m.push (.holding [.scheduler p])).newCompletion = made at hnew
    obtain ⟨c', m'⟩ := made
    have hcontrol : m'.control = (m.push (.holding [.scheduler p])).control := by
      have hsame : (m.push (.holding [.scheduler p])).newCompletion.2.control =
        (m.push (.holding [.scheduler p])).control := rfl
      rw [hmade] at hsame
      exact hsame
    rw [← hcontrol] at hnew
    refine balanced_release (Covered.push (f := .opening p (some c')) (Covered.push
      (f := .replying (.handle (.completion c'))) (hnew.sub fun y => ?_) trivial) trivial)
      fun y => Nat.le_refl _
    simp only [Frame.shares, Onward.handles, Entry.handles, handles_handle, Option.toList_some,
      List.map_cons, List.map_nil, List.nil_append, List.append_nil, loose_cons, loose_nil,
      List.count_cons, List.count_append, List.count_nil]
    omega

theorem balanced_readVariable {name : String} (h : Covered B m.store m.control []) :
    Balanced B (m.readVariable name) := by
  unfold readVariable
  split
  · next v hv =>
    have hmore : Covered B (m.retain v.handles).store m.control (loose v.handles ++ []) := by
      refine h.retain v.handles fun x hx _ => ?_
      have hcount := count_lookup m.store.shared name x
      have hlookup : m.store.shared.lookup name = some v := hv
      have hpos : 0 < v.handles.count x := List.count_pos_iff.mpr hx
      rw [hlookup, Option.map_some, Option.getD_some] at hcount
      simp only [holdings, Store.held, count_loose]
      omega
    exact balanced_release hmore fun y => by
      simp [Onward.handles, Answer.handles, Reply.handles, Outcome.handles]
  · exact balanced_release h fun y => by simp [Onward.handles, Answer.handles, Reply.handles]

/-- A request is begun with the handles that it brings. -/
theorem balanced_perform {request : Request C}
    (h : Covered B m.store m.control (loose (request.handles B.held))) :
    Balanced B (m.perform B request) := by
  cases request with
  | record note =>
    exact balanced_release (h.logged _) fun y => by
      simp [Onward.handles, Answer.handles, Reply.handles, Outcome.handles, Request.handles]
  | readVariable name => exact balanced_readVariable h
  | writeVariable name v =>
    refine balanced_release (covered_replaceShared name h fun x => ?_) fun y => by
      simp [Onward.handles, Answer.handles, Reply.handles, Outcome.handles]
    simp only [Request.handles, List.flatMap_cons, List.count_append]
    omega
  | removeVariable name =>
    refine balanced_release (covered_replaceShared name h fun x => ?_) fun y => by
      simp [Onward.handles, Answer.handles, Reply.handles, Outcome.handles]
    omega
  | attempt code =>
    exact balanced_release (covered_push_empty (f := .attempting) h rfl trivial) fun y => by
      simp [Onward.handles, Entry.handles, Request.handles]
  | newCompletion =>
    obtain ⟨hnew, -⟩ := covered_newCompletion h
    exact balanced_release hnew fun y => by
      simp [Onward.handles, Answer.handles, Reply.handles, Outcome.handles, Value.handles,
        Value.listHandles, newCompletion_fst, Request.handles]
  | settledCompletion o =>
    have hnew : Covered B _ _ [.loose (.completion _)] :=
      covered_newSettled (m := m) (o := o) (by rwa [List.append_nil])
    exact balanced_release hnew fun y => by
      simp [Onward.handles, Answer.handles, Reply.handles, Outcome.handles, newSettled_fst]
  | settle c o => exact balanced_settle (covered_hold h) (keeps_holding (.settler c) m.control)
  | isSettled side =>
    exact balanced_release h fun y => by
      simp [Onward.handles, Answer.handles, Reply.handles, Outcome.handles, Request.handles]
  | outcome c =>
    unfold perform
    dsimp only
    split
    · next o settlers hc =>
      exact balanced_release (retain_settled h hc) fun y => by
        simp only [Onward.handles, Answer.handles, Reply.handles, Request.handles, loose_append,
          List.count_append]
        omega
    · exact balanced_release h fun y => by
        simp [Onward.handles, Answer.handles, Reply.handles, Request.handles]
  | onSettle c code => exact balanced_await (w := .call code) (covered_hold h)
  | newQueue =>
    exact balanced_release h.allocQueue fun y => by
      simp [Onward.handles, Answer.handles, Reply.handles, Outcome.handles, Request.handles]
  | defer q job =>
    have hdeferred : Covered B _ _ [.loose (.queue q)] :=
      covered_defer (m := m) q (.call job) (h.sub fun y => by
        simp only [Request.handles, Job.handles, loose_cons, List.count_append, List.count_cons,
          List.count_nil]
        omega)
    exact balanced_release hdeferred fun y => by
      simp [Onward.handles, Answer.handles, Reply.handles, Outcome.handles]
  | settleLater q o =>
    obtain ⟨hnew, -⟩ := covered_newCompletion h
    refine balanced_release (covered_defer (m := m.newCompletion.2) q
      (.settle m.newCompletion.1 o) (hnew.sub fun y => ?_)) fun y => Nat.le_refl _
    simp only [Onward.handles, Answer.handles, Reply.handles, Outcome.handles, handles_handle,
      newCompletion_fst, Request.handles, Job.handles, loose_append, loose_cons, loose_nil,
      List.count_append, List.count_cons, List.count_nil]
    omega
  | queueLength q =>
    exact balanced_release h fun y => by
      simp [Onward.handles, Answer.handles, Reply.handles, Outcome.handles, Request.handles]
  | drain q =>
    exact balanced_release (covered_push_empty (f := .draining q 0) (covered_hold h) rfl trivial)
      fun y => by simp [Onward.handles, Answer.handles]
  | newScheduler settings =>
    exact balanced_release (h.allocScheduler settings) fun y => by
      simp [Onward.handles, Answer.handles, Reply.handles, Outcome.handles, Request.handles]
  | evaluate p code => exact balanced_evaluate h
  | start p code => exact balanced_start h
  | countRoutines p =>
    have hcounting := covered_push_empty (f := .counting p) (covered_hold h) rfl trivial
    unfold perform countRoutines
    dsimp only
    split
    · exact balanced_release hcounting fun y => by simp [Onward.handles, Answer.handles]
    · exact balanced_release (covered_push_empty (f := .sweeping p) hcounting rfl trivial) fun y => by
        simp [Onward.handles, Answer.handles]
  | isRunning runner =>
    exact balanced_release h fun y => by
      simp [Onward.handles, Answer.handles, Reply.handles, Outcome.handles, Request.handles]
  | takeFailures p =>
    exact balanced_release (covered_onScheduler h p (f := fun s => { s with unhandled := [] })
      [.scheduler p] (fun s _ x => Nat.le_refl _) fun _ x => Nat.le_refl _) fun y => by
        simp [Onward.handles, Answer.handles, Reply.handles]
  | depth k =>
    exact balanced_release h fun y => by
      simp [Onward.handles, Answer.handles, Reply.handles, Outcome.handles, Request.handles]
  | invoke k v => exact balanced_invoke (covered_hold h) (keeps_holding (.continuation k) m.control)
  | reenter p k v =>
    refine balanced_reenter (covered_hold (h.sub fun y => ?_)) (keeps_holding (.continuation k) m.control)
    exact List.count_le_count_cons
  | newBridge settings =>
    exact balanced_release (h.allocBridge (x := ⟨settings, [], false, 0⟩) rfl) fun y => by
      simp [Onward.handles, Answer.handles, Reply.handles, Outcome.handles, Request.handles]
  | run b code => exact balanced_runTask h
  | countActions b =>
    exact balanced_release h fun y => by
      simp [Onward.handles, Answer.handles, Reply.handles, Outcome.handles, Request.handles]
  | keep script positioned => exact balanced_keep h
  | advance i input =>
    show Balanced B (m.advanceKept i input)
    unfold advanceKept
    refine balanced_takeKept h fun script m' h' => ?_
    cases input with
    | some o =>
      exact balanced_advance (covered_push_empty (f := .advancing i) h' rfl trivial)
        fun y => Nat.le_refl _
    | none =>
      exact balanced_exit (covered_push_empty (f := .advancing i) h' rfl trivial) fun y => by simp
  | copy i =>
    show Balanced B (m.takeKept i [] fun script m => m.push (.keepingCopy i script) |>.copy script)
    refine balanced_takeKept h fun script m' h' => ⟨?_, fun script' heq => ?_⟩
    · exact covered_push (f := .keepingCopy i script) (h'.sub fun y => by simp [Frame.shares]) trivial
    · cases heq
      rfl
  | position i =>
    have hanswered : ∀ r : Reply C, r.handles B.held = [] → Balanced B (m.drop [.coroutine i] (.reply r)) :=
      fun r hr => balanced_release h fun y => by
        simp [Onward.handles, Answer.handles, hr, Request.handles]
    show Balanced B (m.positionKept i)
    unfold positionKept
    split
    · next s _ =>
      exact hanswered (.outcome (.success (.int (Int64.ofNat s.position)))) (handles_int (Int64.ofNat s.position))
    · exact hanswered .nothing rfl
    · exact hanswered .busy rfl

/-! ### Answers -/

theorem balanced_stepped {step : Step C}
    (h : Covered B m.store m.control (loose (step.handles B.held ++ script.handles B.held))) :
    Balanced B (m.give (.stepped step script)) :=
  balanced_release h fun y => by simp [Onward.handles, Answer.handles]

theorem balanced_exitStepped {progress : ForcedReturn} {inner : Script C} {step : Step C}
    (h : Covered B m.store m.control
      (loose (progress.output.handles ++ (step.handles B.held ++ inner.handles B.held)))) :
    Balanced B (m.exitStepped progress inner step) := by
  have hgiven : Balanced B (m.give (.stepped step (.exit inner progress))) :=
    balanced_release h fun y => by
      simp only [Onward.handles, Answer.handles, Script.handles, List.nil_append, loose_append,
        List.count_append]
      omega
  cases step with
  | yield i => exact hgiven
  | done o =>
    cases o with
    | failure e => exact hgiven
    | success v =>
      have hmore := retain_transit h progress.output.handles fun x hx => mem_loose.mpr
        (List.mem_append_left _ hx)
      exact balanced_release hmore fun y => by
        simp only [Onward.handles, Answer.handles, Step.handles, Script.handles,
          ForcedReturn.result, Outcome.handles, loose_append, List.count_append]
        omega

theorem balanced_rootStepped {inner : Script C} {step : Step C}
    (h : Covered B m.store m.control
      (loose (.settler c :: (step.handles B.held ++ inner.handles B.held)))) :
    Balanced B (m.rootStepped c inner step) := by
  cases step with
  | yield i =>
    exact balanced_release h fun y => by
      simp only [Onward.handles, Answer.handles, Script.handles, List.nil_append, loose_append,
        loose_cons, loose_nil, List.count_append, List.count_cons, List.count_nil]
      omega
  | done o =>
    have hmore := retain_transit h o.handles fun x hx => mem_loose.mpr
      (List.mem_cons_of_mem _ (List.mem_append_left _ hx))
    refine balanced_settle (m := (m.retain o.handles).push (.reporting inner c o))
      (Covered.push (f := .reporting inner c o) (hmore.sub fun y => ?_) trivial)
      (keeps_top (by simp [Frame.shares]) _)
    simp only [Frame.shares, Step.handles, loose_append, loose_cons, List.count_append,
      List.count_cons]
    omega

/-- An answer is handed to a frame, with what the frame holds. -/
theorem balanced_deliver {a : Answer C}
    (h : Covered B m.store m.control (f.shares B ++ loose (a.handles B.held)))
    (hf : f.backed B m.store.frames? m.control) : Balanced B (m.deliver B a f) := by
  have hgiven : Balanced B (m.give a) := balanced_release h fun y => by
    simp only [Onward.handles, List.nil_append, List.count_append]
    omega
  have hdropped : Balanced B (m.drop (a.handles B.held) .nothing) := balanced_release h fun y => by
    simp only [Onward.handles, Answer.handles, List.append_nil, List.count_append]
    omega
  have hstep := a.count_step B.held
  have hscript := a.count_script B.held
  have hown : Covered B m.store m.control (f.shares B) := h.sub fun y => by
    simp only [List.count_append]
    omega
  cases f with
  | code next =>
    unfold deliver
    dsimp only
    split
    · next r hr =>
      have hreply : (r.handles B.held) = a.handles B.held := by
        cases a with
        | nothing =>
          cases hr
          exact Outcome.handles_unit
        | outcome o =>
          cases hr
          rfl
        | reply r' =>
          cases hr
          rfl
        | yield i => cases hr
        | built s => cases hr
        | stepped step s => cases hr
      exact balanced_release h fun y => by
        simp [Onward.handles, Signal.handles, Frame.shares, hreply]
    · refine balanced_release (Covered.push (f := .code next) h trivial) fun y => ?_
      simp [Onward.handles, Answer.handles]
  | holding hs => exact balanced_release h fun y => by simp [Onward.handles, Frame.shares]
  | releasing rest onward =>
    exact balanced_release h fun y => by
      simp only [Frame.shares, loose_append, List.count_append]
      omega
  | attempting => exact hgiven
  | ignoring => exact hdropped
  | replying v =>
    exact balanced_release h fun y => by
      simp only [Onward.handles, Answer.handles, Reply.handles, Outcome.handles, Frame.shares,
        loose_append, List.count_append]
      omega
  | inStaged s =>
    exact balanced_stepped (h.sub fun y => by
      cases y with
      | loose x =>
        have hone := hstep x
        simp only [Frame.shares, Script.handles, s.handles_after, count_loose,
          List.count_append]
        omega
      | task c => simp)
  | inOwn state =>
    exact balanced_stepped (h.sub fun y => by
      cases y with
      | loose x =>
        have hone := hstep x
        simp only [Frame.shares, Script.handles, count_loose, List.count_append]
        omega
      | task c => simp)
  | inExit progress =>
    cases a with
    | stepped step inner =>
      exact balanced_exitStepped (h.sub fun y => by simp [Frame.shares, Answer.handles])
    | _ => exact hgiven
  | inRoot c =>
    cases a with
    | stepped step inner =>
      exact balanced_rootStepped (h.sub fun y => by simp [Frame.shares, Answer.handles])
    | _ => exact hgiven
  | reporting inner c o =>
    exact balanced_stepped (hown.sub fun y => by
      simp only [Frame.shares, Script.handles, Step.handles, loose_append,
        loose_cons, loose_nil, List.count_append, List.count_cons, List.count_nil]
      omega)
  | inReentry k =>
    exact balanced_stepped (hown.sub fun y => by
      simp [Frame.shares, Script.handles, Step.handles, Instruction.handles])
  | copying script =>
    have hmore := hown.retain (script.handles B.held) fun x hx _ => held_of_lends hf hx
    exact balanced_release hmore fun y => by simp [Onward.handles, Answer.handles]
  | notifying listeners o => exact balanced_notify hown
  | draining q ran => exact balanced_drainNext hown
  | pass p => exact balanced_passHead hown
  | stepping p id =>
    cases a with
    | stepped step script =>
      exact balanced_routineStepped (h.sub fun y => by
        simp only [Frame.shares, Answer.handles, List.nil_append, loose_append, List.count_append]
        omega)
    | _ => exact balanced_endStep h
  | building p id origin =>
    exact balanced_startChild (h.sub fun y => by
      cases y with
      | loose x => simpa [Frame.shares] using hscript x
      | task c => simp)
  | capturing p id handler frames copies left =>
    refine balanced_captureNext (h.sub fun y => ?_) hf
    cases y with
    | loose x =>
      have hone := hscript x
      simp only [Frame.shares, List.flatMap_append, List.flatMap_singleton, count_loose,
        List.count_append]
      omega
    | task c => simp
  | sweeping p => exact balanced_sweep hown
  | opening p settler =>
    refine balanced_openRoot (h.sub fun y => ?_)
    cases y with
    | loose x =>
      have hone := hscript x
      simp only [Frame.shares, count_loose, List.count_append]
      omega
    | task c => simp [Frame.shares]
  | firstPass p =>
    have hempty : Covered B m.store m.control (loose []) := hown
    have hreported : ∀ e, Balanced B
        ((m.onScheduler p fun s => s.report (.firstPassFailed e)).give .nothing) := fun e =>
      balanced_release (covered_onScheduler hempty p
        (f := fun s => s.report (.firstPassFailed e)) [] (fun s _ x => Nat.le_refl _)
        fun _ x => Nat.le_refl _) fun y => by simp [Onward.handles, Answer.handles]
    cases a with
    | outcome o =>
      cases o with
      | success v => exact hgiven
      | failure e => exact hreported e
    | _ => exact hgiven
  | reentered p =>
    have hempty : Covered B m.store m.control (loose []) := hown
    have hfailed : ∀ e, Balanced B ((m.onScheduler p fun s =>
        { s with unhandled := s.unhandled ++ [e] }.report (.reentryFailed e)).give .nothing) := fun e =>
      balanced_release (covered_onScheduler hempty p
        (f := fun s => { s with unhandled := s.unhandled ++ [e] }.report (.reentryFailed e)) []
        (fun s _ x => Nat.le_refl _) fun _ x => Nat.le_refl _) fun y => by
          simp [Onward.handles, Answer.handles]
    cases a with
    | outcome o =>
      cases o with
      | success v => exact hdropped
      | failure e => exact hfailed e
    | _ => exact hdropped
  | counting p =>
    exact balanced_release hown fun y => by
      simp [Onward.handles, Answer.handles, Reply.handles, Outcome.handles]
  | reinstating k v copies left =>
    refine balanced_reinstateNext (h.sub fun y => ?_) hf.1 hf.2
    cases y with
    | loose x =>
      have hone := hscript x
      simp only [Frame.shares, List.flatMap_append, List.flatMap_singleton, count_loose,
        List.count_append]
      omega
    | task c => simp
  | driving b => exact balanced_bridgeHead hown hf
  | starting b c =>
    have hbuilt : Balanced B (m.taskBuilt b c a.script) := by
      refine balanced_taskBuilt (h.sub fun y => ?_)
      cases y with
      | loose x =>
        have hone := hscript x
        simpa [Frame.shares] using hone
      | task c' => simp [Frame.shares, List.count_cons]
    cases a with
    | outcome o =>
      cases o with
      | success v => exact hbuilt
      | failure e => exact balanced_taskNotBuilt hown
    | _ => exact hbuilt
  | resuming b id c =>
    have hended : Balanced B (m.drop (.settler c :: a.handles B.held) .nothing) :=
      balanced_release h.resign fun y => by simp [Onward.handles, Answer.handles]
    cases a with
    | stepped step script =>
      refine balanced_taskStepped (h.sub fun y => ?_) hf
      simp only [Frame.shares, Answer.handles, loose_append, List.count_append, List.count_cons,
        List.count_nil]
      omega
    | _ => exact hended
  | advancing i =>
    cases a with
    | stepped step script =>
      have hback : Covered B (m.putBack i script).store m.control (loose (step.handles B.held)) :=
        covered_putBack (h.sub fun y => by
          simp only [Frame.shares, Answer.handles, List.nil_append, loose_append, List.count_append]
          omega)
      exact balanced_release hback fun y => by simp [Onward.handles, Answer.handles, Reply.handles]
    | _ => exact hgiven
  | keepingCopy i script =>
    refine balanced_keep (m := m.putBack i script) (covered_putBack (h.sub fun y => ?_))
    cases y with
    | loose x =>
      have hone := hscript x
      simp only [Frame.shares, count_loose, List.count_append]
      omega
    | task c => simp

/-! ### Panics -/

/-- A panic passes a frame, with what the frame holds. -/
theorem balanced_unwindFrame {payload : Payload} {salvage : Option (Script C)}
    (h : Covered B m.store m.control
      (f.shares B ++ loose ((salvage.map (Script.handles B.held)).getD [])))
    (hf : f.backed B m.store.frames? m.control) :
    Balanced B (m.unwindFrame B payload salvage f) := by
  have hpassed : Balanced B (m.unwind [] payload salvage) := balanced_release h fun y => by
    simp only [Onward.handles, List.nil_append, List.count_append]
    omega
  have hown : Covered B m.store m.control (f.shares B) := h.sub fun y => by
    simp only [List.count_append]
    omega
  have hnothing : ∀ m' : Machine C R, Covered B m'.store m'.control [] →
      Balanced B (m'.unwind [] payload none) := fun m' h' => balanced_release h' fun y => by
    simp [Onward.handles]
  have hlost : Balanced B (m.unwind [] payload none) := hnothing m (h.sub fun y => Nat.zero_le _)
  cases f with
  | code next => exact balanced_release hown fun y => by simp [Onward.handles, Frame.shares]
  | holding hs => exact balanced_release h fun y => by simp [Onward.handles, Frame.shares]
  | releasing rest onward =>
    have hreleased : Balanced B (m.unwind (rest ++ onward.handles B) payload salvage) :=
      balanced_release h fun y => by simp [Onward.handles, Frame.shares]
    cases onward with
    | unwind payload' salvage' => exact ⟨h.sub fun y => Nat.zero_le _, fun _ heq => by cases heq⟩
    | _ => exact hreleased
  | attempting =>
    exact balanced_release hown fun y => by simp [Onward.handles, Answer.handles, Reply.handles]
  | ignoring => exact hpassed
  | replying v => exact balanced_release h fun y => by simp [Onward.handles, Frame.shares]
  | inStaged s =>
    exact balanced_release hown fun y => by simp [Onward.handles, Frame.shares, Script.handles]
  | inOwn state =>
    exact balanced_release hown fun y => by simp [Onward.handles, Frame.shares, Script.handles]
  | inExit progress =>
    refine balanced_release h fun y => ?_
    cases salvage with
    | none => simp [Onward.handles]
    | some inner =>
      simp only [Onward.handles, Frame.shares, Script.handles, Option.map_some, Option.getD_some,
        List.nil_append, loose_append, List.count_append]
      omega
  | inRoot c =>
    refine balanced_release h fun y => ?_
    cases salvage with
    | none => simp [Onward.handles]
    | some inner =>
      simp only [Onward.handles, Frame.shares, Script.handles, Option.map_some, Option.getD_some,
        List.nil_append, loose_append, List.count_append]
      omega
  | reporting inner c o =>
    exact balanced_release hown fun y => by
      simp only [Onward.handles, Frame.shares, Script.handles, Option.map_some, Option.getD_some,
        loose_append, loose_cons, loose_nil, List.count_append, List.count_cons, List.count_nil]
      omega
  | inReentry k =>
    exact balanced_release hown fun y => by simp [Onward.handles, Frame.shares, Script.handles]
  | copying script => exact hlost
  | notifying listeners o =>
    have hworth : Covered B m.store m.control
        (loose (listeners.flatMap (Listener.handles B.held) ++ o.handles ++
          (salvage.map (Script.handles B.held)).getD [])) := by
      refine h.mono (fun x _ => Nat.le_of_eq ?_) fun c => ?_
      · rw [worth_append]
        simp only [Frame.shares]
        rw [worth_append, worth_loose, worth_loose, worth_loose, List.count_append,
          List.count_append, worth_flatMap _ _ x (fun w => worth_listener B.held w x)]
      · rw [count_loose_task]
        exact Nat.zero_le _
    exact balanced_release hworth fun y => by simp [Onward.handles]
  | draining q ran => exact hpassed
  | pass p =>
    have hempty : Covered B m.store m.control (loose []) := hown
    have hleft := covered_onScheduler hempty p (f := fun s => s.leave true)
      (m.registerHandles p) (fun s hs x => by
        have hclaims := Scheduler.claims_leave B.held x s true
        rw [registerHandles_of_some hs]
        exact Nat.le_of_eq hclaims) fun hnone x => by
          rw [registerHandles_of_none hnone]
    exact balanced_release hleft fun y => by simp [Onward.handles]
  | stepping p id =>
    have hscript : Covered B m.store m.control
        (loose ((salvage.getD (.returning .unit)).handles B.held)) := by
      cases salvage with
      | none => exact h.sub fun y => by simp [Script.returning, Script.handles, Staged.returning,
          Staged.handles, Stage.handles]
      | some script => exact h
    unfold unwindFrame
    dsimp only
    split
    · exact balanced_routineStepped (hscript.sub fun y => by
        simp [failed, Step.handles, Outcome.handles])
    · exact balanced_release hscript fun y => by simp [Onward.handles]
  | building p id origin =>
    unfold unwindFrame
    dsimp only
    split
    · exact balanced_startChild (hown.sub fun y => by
        simp [Script.returning, Script.handles, Staged.returning, Staged.handles, Stage.handles,
          Outcome.handles])
    · exact hlost
  | capturing p id handler frames copies left =>
    exact balanced_release hown fun y => by
      simp only [Onward.handles, Frame.shares, Scheduler.liftedHandles, Option.map_none,
        Option.getD_none, List.append_nil, loose_append, List.count_append]
      omega
  | sweeping p => exact hlost
  | opening p settler =>
    unfold unwindFrame
    dsimp only
    split
    · exact balanced_openRoot (hown.sub fun y => by
        simp [Frame.shares, Script.returning, Script.handles, Staged.returning, Staged.handles,
          Stage.handles, Outcome.handles])
    · exact balanced_release hown fun y => by simp [Onward.handles, Frame.shares]
  | firstPass p => exact hlost
  | reentered p => exact hlost
  | counting p => exact hlost
  | reinstating k v copies left =>
    exact balanced_release hown fun y => by
      simp only [Onward.handles, Frame.shares, Option.map_none, Option.getD_none, List.append_nil,
        loose_append, List.count_append]
      omega
  | driving b =>
    exact hnothing (m.leaveBridge b) (hown.onBridge_same (b := b)
      (fun x => { x with running := false }) fun _ => rfl)
  | starting b c =>
    unfold unwindFrame
    dsimp only
    split
    · exact balanced_taskNotBuilt hown
    · exact balanced_release hown.resign fun y => by simp [Onward.handles]
  | resuming b id c =>
    have hscript : Covered B m.store m.control
        (.task c :: loose ((salvage.getD (.returning .unit)).handles B.held)) := by
      cases salvage with
      | none => exact h.sub fun y => by simp [Frame.shares, Script.returning, Script.handles,
          Staged.returning, Staged.handles, Stage.handles]
      | some script => exact h
    unfold unwindFrame
    dsimp only
    split
    · exact balanced_taskStepped (hscript.sub fun y => by
        simp [failed, Step.handles, Outcome.handles]) hf
    · exact balanced_release hscript.resign fun y => by simp [Onward.handles]
  | advancing i =>
    unfold unwindFrame
    dsimp only
    cases salvage with
    | none => exact hlost
    | some script =>
      exact hnothing (m.putBack i script) (covered_putBack (h.sub fun y => by simp [Frame.shares]))
  | keepingCopy i script =>
    exact hnothing (m.putBack i script) (covered_putBack (hown.sub fun y => by simp [Frame.shares]))

/-! ### Every move -/

/-- A handle is let go of, and `rest` follows. -/
theorem balanced_letGo {rest : List Handle} {onward : Onward C R}
    (h : Covered B m.store m.control (.loose x :: loose (rest ++ onward.handles B))) :
    Balanced B (m.letGo B x rest onward) := by
  have hafter := h.letGo
  unfold letGo
  generalize m.store.letGo B.held x = result at hafter
  cases hafter with
  | release hs st h' =>
    exact balanced_release h' fun y => by simp
  | abandoned c listeners st hc h' =>
    have hsettled := h' (.failure .abandoned) rfl
    have hkept : Covered B { st with
        completions := st.completions.set c ⟨.settled (.failure .abandoned), 0⟩ }
        (.notifying listeners (.failure .abandoned) ::
          .releasing (.completion c :: rest) onward :: m.control) [] := by
      refine covered_push (f := .notifying listeners (.failure .abandoned)) ?_ trivial
      refine Covered.push (f := .releasing (.completion c :: rest) onward) (hsettled.sub fun y => ?_)
        trivial
      simp only [Frame.shares, Outcome.handles, loose_append, loose_cons, loose_nil,
        List.count_append, List.count_cons, List.count_nil]
      omega
    dsimp only
    unfold settle
    have hfound : (({ m with store := st }.push
        (.releasing (.completion c :: rest) onward)).store.completions.find? c) =
          some ⟨.pending listeners, 0⟩ := hc
    rw [hfound]
    exact balanced_release hkept fun y => by simp [Onward.handles, Answer.handles]

theorem balanced_startCode (hB : B.Honest) {code : C} {entry : Entry}
    (h : Covered B m.store m.control (loose (B.held code ++ entry.handles))) :
    Balanced B (m.startCode B code entry) :=
  balanced_release (covered_recount h (hB.start code entry)) fun y => by
    simp [Onward.handles, Signal.handles, recount]

theorem balanced_tell (hB : B.Honest) {state : R} {signal : Signal C}
    (h : Covered B m.store m.control (loose (B.heldRunning state ++ signal.handles B.held))) :
    Balanced B (m.tell B state signal) := by
  have hcounted := covered_recount h (hB.react state signal)
  unfold tell
  dsimp only
  generalize B.react state signal = reaction at hcounted
  cases reaction with
  | panic payload => exact balanced_release hcounted fun y => by simp [Onward.handles]
  | _ => exact balanced_release hcounted fun y => by simp [Onward.handles]

theorem balanced_act {reaction : Reaction C R}
    (h : Covered B m.store m.control (loose (reaction.handles B))) :
    Balanced B (m.act B reaction) := by
  cases reaction with
  | ask request next =>
    refine balanced_perform (m := m.push (.code next)) (Covered.push (f := .code next)
      (h.sub fun y => ?_) trivial)
    simp only [Frame.shares, Reaction.handles, loose_append, List.count_append]
    omega
  | _ =>
    exact balanced_release h fun y => by
      simp [Onward.handles, Answer.handles, Signal.handles, Reaction.handles]

/-- No move makes more handles than it counts. -/
theorem balanced_step (hB : B.Honest) (h : Balanced B m) : Balanced B (m.step B) := by
  obtain ⟨st, K, focus⟩ := m
  obtain ⟨hcovered, hlent⟩ := h
  cases focus with
  | advance script input => exact balanced_advanceScript hB hcovered
  | exit script => exact balanced_exitScript hB hcovered
  | copy script => exact balanced_copyScript hB hcovered (hlent script rfl)
  | aborted => exact ⟨hcovered, hlent⟩
  | release hs onward =>
    cases hs with
    | cons x rest => exact balanced_letGo hcovered
    | nil =>
      cases onward with
      | begin code entry => exact balanced_startCode hB hcovered
      | tell state signal => exact balanced_tell hB hcovered
      | act reaction => exact balanced_act hcovered
      | give a =>
        cases K with
        | nil => exact ⟨hcovered, hlent⟩
        | cons f K => exact balanced_deliver (m := ⟨st, K, _⟩) hcovered.pop hcovered.backed.1
      | unwind payload salvage =>
        cases K with
        | nil => exact ⟨hcovered, hlent⟩
        | cons f K => exact balanced_unwindFrame (m := ⟨st, K, _⟩) hcovered.pop hcovered.backed.1

end Machine

end Strand
