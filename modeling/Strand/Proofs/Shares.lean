import Mathlib
import Strand.Proofs.Sums
import Strand.Proofs.Claims

/-! # Shares — what is held is counted

    Every handle stands for a share in what it refers to, and the store counts
    the shares. `Covered` says that no more handles are about than shares have
    been counted: those in the store, in the frames of the control stack and in
    transit, taken together.

    A task on a bridge holds the settler of its own completion. As long as the
    task waits for its turn, this settler is told apart from all others
    (`Share.task`): it is the only one, so nobody but the task can settle the
    completion.

    * What is lent for a while, to be copied, is not counted, but belongs to the
      frame directly beneath (`Backed`).
    * As long as a completion is pending, its readers and its settlers are
      counted apart; once it has settled, only both together (`Affords`).
    * Whatever is done to a store comes down to one lemma, `Covered.step`. -/

namespace Strand

/-! ### What is held where -/

/-- What is held: a handle, or by a task that waits for its turn the settler of
    its own completion. -/
inductive Share where
  | loose (h : Handle)
  | task (settler : Nat)
deriving DecidableEq

/-- Whether the holders are counted. -/
def Handle.counted : Handle → Bool
  | .reenter _ => false
  | _ => true

/-- Handles that are not those of a task. -/
def loose (hs : List Handle) : List Share := hs.map .loose

@[simp] theorem loose_nil : loose [] = [] := rfl

@[simp] theorem loose_append (hs hs' : List Handle) : loose (hs ++ hs') = loose hs ++ loose hs' :=
  List.map_append

@[simp] theorem loose_cons (h : Handle) (hs : List Handle) : loose (h :: hs) = .loose h :: loose hs :=
  rfl

@[simp] theorem count_loose (hs : List Handle) (x : Handle) :
    (loose hs).count (.loose x) = hs.count x :=
  List.count_map_of_injective hs Share.loose (fun _ _ h => Share.loose.inj h) x

@[simp] theorem count_loose_task (hs : List Handle) (c : Nat) : (loose hs).count (.task c) = 0 :=
  List.count_eq_zero.mpr fun h => by
    obtain ⟨x, -, hx⟩ := List.mem_map.mp h
    cases hx

/-- How often a handle is held, if shares are held so often. -/
def worth (n : Share → Nat) : Handle → Nat
  | .settler c => n (.loose (.settler c)) + n (.task c)
  | x => n (.loose x)

theorem worth_mono {n n' : Share → Nat} (h : ∀ y, n y ≤ n' y) (x : Handle) :
    worth n x ≤ worth n' x := by
  cases x with
  | settler c => exact Nat.add_le_add (h _) (h _)
  | _ => exact h _

theorem worth_add (n n' : Share → Nat) (x : Handle) :
    worth (fun y => n y + n' y) x = worth n x + worth n' x := by
  cases x with
  | settler c =>
    simp only [worth]
    omega
  | _ => rfl

theorem le_worth (n : Share → Nat) (x : Handle) : n (.loose x) ≤ worth n x := by
  cases x with
  | settler c => exact Nat.le_add_right _ _
  | _ => exact Nat.le_refl _

@[simp] theorem worth_loose (hs : List Handle) (x : Handle) :
    worth (fun y => (loose hs).count y) x = hs.count x := by
  cases x <;> simp [worth]

section Held

variable {C : Type} (held : C → List Handle)

def Task.shares (task : Task C) : List Share :=
  .task task.settler :: loose (task.script.handles held)

def Listener.shares : Listener C → List Share
  | .call code => loose (held code)
  | .resume b task => .loose (.bridge b) :: task.shares held

def Progress.shares : Progress C → List Share
  | .pending listeners => listeners.flatMap (Listener.shares held)
  | .settled o => loose o.handles

def Action.shares : Action C → List Share
  | .start code settler => .task settler :: loose (held code)
  | .resume task o => task.shares held ++ loose ((o.map Outcome.handles).getD [])

def Bridge.shares (b : Bridge C) : List Share := b.stack.flatMap (Action.shares held)

end Held

variable {C R : Type}

/-- How often a share is held in the store. -/
def Store.held (held : C → List Handle) (y : Share) (st : Store C) : Nat :=
  st.completions.total (fun k => (k.progress.shares held).count y) +
  (st.bridges.total (fun b => (b.shares held).count y) +
  (st.queues.total (fun q => (loose (q.flatMap (Job.handles held))).count y) +
  (st.snapshots.total (fun k => (loose (k.handles held)).count y) +
  (st.schedulers.total (fun s => (loose (s.handles held)).count y) +
  (st.kept.total (fun k => (loose (k.handles held)).count y) +
  (loose (st.shared.flatMap fun entry => entry.2.handles)).count y)))))

/-- What the frame holds. -/
def Frame.shares (B : Behavior C R) : Frame C R → List Share
  | .code next => loose (B.heldRunning next)
  | .holding hs => loose hs
  | .releasing rest onward => loose (rest ++ onward.handles B)
  | .replying v => loose v.handles
  | .inStaged s => loose (s.handles B.held)
  | .inOwn state => loose (B.held state)
  | .inExit progress => loose progress.output.handles
  | .inRoot c => loose [.settler c]
  | .reporting inner c o => loose (inner.handles B.held ++ .settler c :: o.handles)
  | .inReentry k => loose [.continuation k]
  | .notifying listeners o => listeners.flatMap (Listener.shares B.held) ++ loose o.handles
  | .capturing _ _ handler frames copies _ =>
    loose (B.held handler ++ Scheduler.liftedHandles B.held frames
      ++ copies.flatMap (Script.handles B.held))
  | .opening _ settler => loose (settler.toList.map .settler)
  | .reinstating _ v copies _ => loose (v.handles ++ copies.flatMap (Script.handles B.held))
  | .starting _ c => [.task c]
  | .resuming _ _ c => [.task c]
  | .keepingCopy _ script => loose (script.handles B.held)
  | _ => []

/-- What is held by what happens next. A script that is to be copied is only
    lent. -/
def Focus.shares (B : Behavior C R) : Focus C R → List Share
  | .advance script input => loose (script.handles B.held ++ input.handles)
  | .exit script => loose (script.handles B.held)
  | .copy _ => []
  | .release hs onward => loose (hs ++ onward.handles B)
  | .aborted => []

/-! ### Worth -/

section Worth

variable (held : C → List Handle)

theorem worth_task (task : Task C) (x : Handle) :
    worth (fun y => (task.shares held).count y) x = (task.handles held).count x := by
  simp only [Task.shares, Task.handles, List.count_append, List.count_singleton]
  cases x with
  | settler c =>
    simp only [worth, List.count_cons, count_loose, count_loose_task, beq_iff_eq, reduceCtorEq,
      if_false, Share.task.injEq, Handle.settler.injEq]
    omega
  | _ => simp [worth]

theorem worth_cons (h : Handle) (ys : List Share) (x : Handle) :
    worth (fun y => (Share.loose h :: ys).count y) x =
      worth (ys.count ·) x + if h = x then 1 else 0 := by
  cases x with
  | settler c =>
    simp only [worth, List.count_cons, beq_iff_eq, Share.loose.injEq, reduceCtorEq, if_false]
    omega
  | _ => simp only [worth, List.count_cons, beq_iff_eq, Share.loose.injEq]

theorem worth_append (ys ys' : List Share) (x : Handle) :
    worth (fun y => (ys ++ ys').count y) x = worth (ys.count ·) x + worth (ys'.count ·) x := by
  simp only [List.count_append]
  exact worth_add _ _ x

theorem worth_flatMap {α : Type} (f : α → List Share) (g : α → List Handle) (x : Handle)
    (hf : ∀ a, worth (fun y => (f a).count y) x = (g a).count x) (as : List α) :
    worth (fun y => (as.flatMap f).count y) x = (as.flatMap g).count x := by
  induction as with
  | nil => cases x <;> rfl
  | cons a as ih =>
    simp only [List.flatMap_cons]
    rw [worth_append, List.count_append, hf, ih]

theorem worth_listener (w : Listener C) (x : Handle) :
    worth (fun y => (w.shares held).count y) x = (w.handles held).count x := by
  cases w with
  | call code => exact worth_loose (held code) x
  | resume b task =>
    simp only [Listener.shares, Listener.handles]
    rw [worth_cons, worth_task, List.count_cons]
    simp

theorem worth_progress (p : Progress C) (x : Handle) :
    worth (fun y => (p.shares held).count y) x = (p.handles held).count x := by
  cases p with
  | pending listeners => exact worth_flatMap _ _ x (fun w => worth_listener held w x) listeners
  | settled o => exact worth_loose o.handles x

theorem worth_action (a : Action C) (x : Handle) :
    worth (fun y => (a.shares held).count y) x = (a.handles held).count x := by
  cases a with
  | start code settler =>
    simp only [Action.shares, Action.handles, List.count_append]
    cases x with
    | settler c =>
      simp only [worth, List.count_cons, count_loose, count_loose_task, beq_iff_eq, reduceCtorEq,
        if_false, Share.task.injEq, Handle.settler.injEq, List.count_nil]
      omega
    | _ => simp [worth]
  | resume task o =>
    simp only [Action.shares, Action.handles]
    rw [worth_append, List.count_append, worth_task, worth_loose]

theorem worth_bridge (b : Bridge C) (x : Handle) :
    worth (fun y => (b.shares held).count y) x = (b.handles held).count x := by
  have hstack := worth_flatMap _ _ x (fun a => worth_action held a x) b.stack
  rw [Bridge.shares, Bridge.handles, hstack]
  exact (((List.reverse_perm b.stack).flatMap_right _).count_eq x).symm

theorem worth_weight {α : Type} (f : α → List Share) (g : α → List Handle) (x : Handle)
    (hf : ∀ a, worth (fun y => (f a).count y) x = (g a).count x) (o : Option α) :
    worth (fun y => Table.weight (fun a => (f a).count y) o) x = ((o.map g).getD []).count x := by
  cases o with
  | none => cases x <;> rfl
  | some a => exact hf a

end Worth

/-! ### What is counted -/

/-- What is known of a completion from counting. -/
structure Tally where
  holders : Nat
  settlers : Nat
  pending : Bool

/-- Enough holders are counted for so many readers and settlers of a
    completion. -/
def Tally.Affords (readers settlers : Nat) : Option Tally → Prop
  | none => readers + settlers = 0
  | some t =>
    if t.pending then readers + t.settlers ≤ t.holders ∧ settlers ≤ t.settlers
    else readers + settlers ≤ t.holders

def Progress.isPending : Progress C → Bool
  | .pending _ => true
  | .settled _ => false

/-- Whether holders of the handle are counted, and nothing else of what it
    refers to. -/
def Handle.plain : Handle → Bool
  | .completion _ => false
  | .settler _ => false
  | .reenter _ => false
  | _ => true

namespace Store

def tally? (st : Store C) (c : Nat) : Option Tally :=
  (st.completions.cell? c).map fun cell =>
    ⟨cell.holders, cell.content.settlers, cell.content.progress.isPending⟩

/-- How many holders of a plain handle are counted. -/
def holders (st : Store C) : Handle → Nat
  | .queue q => st.queues.holders q
  | .continuation k => st.snapshots.holders k
  | .scheduler p => st.schedulers.holders p
  | .bridge b => st.bridges.holders b
  | .coroutine x => st.kept.holders x
  | _ => 0

/-- Enough holders are counted for so many handles of each kind. -/
structure Affords (st : Store C) (n : Handle → Nat) : Prop where
  completions : ∀ c, Tally.Affords (n (.completion c)) (n (.settler c)) (st.tally? c)
  plain : ∀ x, x.plain = true → n x ≤ st.holders x

/-- The frames of a snapshot. -/
def frames? (st : Store C) (k : Nat) : Option (List (FrameCopy C)) :=
  (st.snapshots.find? k).map Snapshot.frames

end Store

theorem Tally.Affords.mono {r r' s s' : Nat} {t : Option Tally} (h : Tally.Affords r s t)
    (hr : r' ≤ r) (hs : s' ≤ s) : Tally.Affords r' s' t := by
  cases t with
  | none =>
    simp only [Tally.Affords] at h ⊢
    omega
  | some t =>
    simp only [Tally.Affords] at h ⊢
    split
    · next hpending =>
      rw [if_pos hpending] at h
      omega
    · next hsettled =>
      rw [if_neg hsettled] at h
      omega

theorem Handle.counted_of_plain {x : Handle} (h : x.plain = true) : x.counted = true := by
  cases x <;> first
    | rfl
    | cases h

theorem Store.Affords.mono {st : Store C} {n n' : Handle → Nat} (h : st.Affords n)
    (hle : ∀ x, x.counted = true → n' x ≤ n x) : st.Affords n' where
  completions c := (h.completions c).mono (hle _ rfl) (hle _ rfl)
  plain x hx := Nat.le_trans (hle x (Handle.counted_of_plain hx)) (h.plain x hx)

/-! ### Lending -/

/-- The frame on top has the script. -/
def Lends (frames? : Nat → Option (List (FrameCopy C))) (script : Script C) :
    List (Frame C R) → Prop
  | .capturing _ _ _ frames _ _ :: _ => ∃ frame ∈ frames, frame.script = script
  | .keepingCopy _ s :: _ => s = script
  | .reinstating k _ _ _ :: _ => ∃ fs, frames? k = some fs ∧ ∃ frame ∈ fs, frame.script = script
  | _ => False

/-- What the frame makes use of is held beneath it. -/
def Frame.backed (B : Behavior C R) (frames? : Nat → Option (List (FrameCopy C)))
    (rest : List (Frame C R)) : Frame C R → Prop
  | .copying script => Lends frames? script rest
  | .capturing _ _ _ frames _ left => left ⊆ frames
  | .reinstating k _ _ left => .loose (.continuation k) ∈ rest.flatMap (Frame.shares B) ∧
      ∃ fs, frames? k = some fs ∧ left ⊆ fs
  | .driving b => .loose (.bridge b) ∈ rest.flatMap (Frame.shares B)
  | .starting b _ => .loose (.bridge b) ∈ rest.flatMap (Frame.shares B)
  | .resuming b _ _ => .loose (.bridge b) ∈ rest.flatMap (Frame.shares B)
  | _ => True

def Backed (B : Behavior C R) (frames? : Nat → Option (List (FrameCopy C))) :
    List (Frame C R) → Prop
  | [] => True
  | f :: rest => f.backed B frames? rest ∧ Backed B frames? rest

theorem Backed.congr {B : Behavior C R} {frames? frames?' : Nat → Option (List (FrameCopy C))}
    {K : List (Frame C R)} (h : Backed B frames? K)
    (hsame : ∀ k fs, .loose (.continuation k) ∈ K.flatMap (Frame.shares B) →
      frames? k = some fs → frames?' k = some fs) : Backed B frames?' K := by
  induction K with
  | nil => trivial
  | cons f rest ih =>
    obtain ⟨hf, hrest⟩ := h
    have hbelow : ∀ k fs, .loose (.continuation k) ∈ rest.flatMap (Frame.shares B) →
        frames? k = some fs → frames?' k = some fs :=
      fun k fs hk => hsame k fs (List.mem_flatMap.mpr (by
        obtain ⟨g, hg, hkg⟩ := List.mem_flatMap.mp hk
        exact ⟨g, List.mem_cons_of_mem _ hg, hkg⟩))
    refine ⟨?_, ih hrest hbelow⟩
    cases f with
    | reinstating k v copies left =>
      obtain ⟨hk, fs, hfs, hleft⟩ := hf
      exact ⟨hk, fs, hbelow k fs hk hfs, hleft⟩
    | copying script =>
      -- the frame that lends the script from a snapshot says who holds the snapshot
      cases rest with
      | nil => exact hf
      | cons g rest =>
        cases g with
        | reinstating k v copies left =>
          obtain ⟨fs, hfs, hscript⟩ := hf
          obtain ⟨hk, -⟩ := hrest.1
          refine ⟨fs, hbelow k fs ?_ hfs, hscript⟩
          obtain ⟨g', hg', hkg'⟩ := List.mem_flatMap.mp hk
          exact List.mem_flatMap.mpr ⟨g', List.mem_cons_of_mem _ hg', hkg'⟩
        | _ => exact hf
    | _ => exact hf

/-! ### Enough shares -/

section Covered

variable (B : Behavior C R)

/-- How often a share is held in all: in the store, in frames and in transit. -/
def holdings (st : Store C) (K : List (Frame C R)) (ys : List Share) (y : Share) : Nat :=
  st.held B.held y + ((K.flatMap (Frame.shares B)).count y + ys.count y)

/-- With `ys` in transit, nobody holds more than has been counted, and who
    waits for its turn on a bridge is alone in holding the settler of a
    completion that is pending. Somebody can still settle what is pending. -/
structure Covered (st : Store C) (K : List (Frame C R)) (ys : List Share) : Prop where
  afford : st.Affords (worth (holdings B st K ys))
  own : ∀ c, 0 < holdings B st K ys (.task c) → ∃ n, st.tally? c = some ⟨n, 1, true⟩
  hopeful : ∀ c t, st.tally? c = some t → t.pending = true → 1 ≤ t.settlers
  backed : Backed B st.frames? K

variable {B} {st st' : Store C} {K : List (Frame C R)} {ys ys' : List Share}
  {f : Frame C R} {x : Handle} {c : Nat}

/-- Shares may be taken for what they are worth, and may get lost. -/
theorem Covered.mono (h : Covered B st K ys)
    (hworth : ∀ x, x.counted = true → worth (ys'.count ·) x ≤ worth (ys.count ·) x)
    (htask : ∀ c, ys'.count (.task c) ≤ ys.count (.task c)) : Covered B st K ys' where
  afford := by
    refine h.afford.mono fun x hx => ?_
    have hle := hworth x hx
    have hold := worth_add (fun y => st.held B.held y + (K.flatMap (Frame.shares B)).count y)
      (ys.count ·) x
    have hnew := worth_add (fun y => st.held B.held y + (K.flatMap (Frame.shares B)).count y)
      (ys'.count ·) x
    simp only [Nat.add_assoc] at hold hnew
    show worth (fun y => _ + (_ + _)) x ≤ worth (fun y => _ + (_ + _)) x
    omega
  own c hc := h.own c (Nat.lt_of_lt_of_le hc (by
    have hle := htask c
    simp only [holdings]
    omega))
  hopeful := h.hopeful
  backed := h.backed

theorem Covered.sub (h : Covered B st K ys) (hle : ∀ y, ys'.count y ≤ ys.count y) :
    Covered B st K ys' :=
  h.mono (fun x _ => worth_mono hle x) fun _ => hle _

/-- What is not counted may be about in any number. -/
theorem Covered.uncounted (h : Covered B st K ys) (hx : x.counted = false) :
    Covered B st K (.loose x :: ys) := by
  refine h.mono (fun z hz => Nat.le_of_eq ?_) fun c => ?_
  · have hne : Share.loose x ≠ .loose z := fun heq => by
      cases heq
      rw [hx] at hz
      cases hz
    cases z <;> simp only [worth, List.count_cons_of_ne hne, List.count_cons_of_ne, ne_eq,
      reduceCtorEq, not_false_eq_true]
  · simp only [List.count_cons_of_ne, ne_eq, reduceCtorEq, not_false_eq_true, Nat.le_refl]

theorem Covered.push (h : Covered B st K (f.shares B ++ ys)) (hf : f.backed B st.frames? K) :
    Covered B st (f :: K) ys := by
  have hsame : holdings B st (f :: K) ys = holdings B st K (f.shares B ++ ys) := by
    funext y
    simp only [holdings, List.flatMap_cons, List.count_append]
    omega
  exact ⟨hsame ▸ h.afford, hsame ▸ h.own, h.hopeful, hf, h.backed⟩

theorem Covered.pop (h : Covered B st (f :: K) ys) : Covered B st K (f.shares B ++ ys) := by
  have hsame : holdings B st K (f.shares B ++ ys) = holdings B st (f :: K) ys := by
    funext y
    simp only [holdings, List.flatMap_cons, List.count_append]
    omega
  exact ⟨hsame ▸ h.afford, hsame ▸ h.own, h.hopeful, h.backed.2⟩

/-- What happens to a store in general: `lost` is no longer counted, `new` is
    counted from now on, `ins` goes into the store and `outs` comes out of it. -/
theorem Covered.step (lost new : List Handle) (ins outs : List Share)
    (h : Covered B st K (loose lost ++ (ins ++ ys)))
    (hworth : ∀ x, worth (fun y => st'.held B.held y + outs.count y) x ≤
      worth (fun y => st.held B.held y + ins.count y) x)
    (htask : ∀ c, st'.held B.held (.task c) + outs.count (.task c) ≤
      st.held B.held (.task c) + ins.count (.task c))
    (hafford : ∀ n n' : Handle → Nat, (∀ x, lost.count x ≤ n x) →
      (∀ x, n' x + lost.count x ≤ n x + new.count x) → st.Affords n → st'.Affords n')
    (hown : ∀ c n, st.tally? c = some ⟨n, 1, true⟩ →
      0 < holdings B st K (loose lost ++ (ins ++ ys)) (.task c) →
      ∃ n', st'.tally? c = some ⟨n', 1, true⟩)
    (hhopeful : ∀ c t, st'.tally? c = some t → t.pending = true → 1 ≤ t.settlers)
    (hframes : ∀ k fs, .loose (.continuation k) ∈ K.flatMap (Frame.shares B) →
      st.frames? k = some fs → st'.frames? k = some fs) :
    Covered B st' K (loose new ++ (outs ++ ys)) where
  afford := by
    refine hafford _ _ (fun x => ?_) (fun x => ?_) h.afford
    · rw [← worth_loose lost x]
      refine worth_mono (fun y => ?_) x
      simp only [holdings, List.count_append]
      omega
    · have hle := hworth x
      have hbefore : worth (holdings B st K (loose lost ++ (ins ++ ys))) x =
          worth (fun y => st.held B.held y + ins.count y) x +
            (worth (fun y => (K.flatMap (Frame.shares B)).count y + ys.count y) x +
              lost.count x) := by
        rw [← worth_loose lost x, ← worth_add, ← worth_add]
        congr 1
        funext y
        simp only [holdings, List.count_append]
        omega
      have hafter : worth (holdings B st' K (loose new ++ (outs ++ ys))) x =
          worth (fun y => st'.held B.held y + outs.count y) x +
            (worth (fun y => (K.flatMap (Frame.shares B)).count y + ys.count y) x +
              new.count x) := by
        rw [← worth_loose new x, ← worth_add, ← worth_add]
        congr 1
        funext y
        simp only [holdings, List.count_append]
        omega
      omega
  own c hc := by
    have hheld : 0 < holdings B st K (loose lost ++ (ins ++ ys)) (.task c) := by
      have hle := htask c
      simp only [holdings, List.count_append, count_loose_task] at hc ⊢
      omega
    obtain ⟨n, hn⟩ := h.own c hheld
    exact hown c n hn hheld
  hopeful := hhopeful
  backed := h.backed.congr hframes

/-- Things are moved about; `new` handles, plain ones, may come into being. -/
theorem Covered.update (new : List Handle) (ins outs : List Share)
    (h : Covered B st K (ins ++ ys))
    (hheld : ∀ y, st'.held B.held y + outs.count y ≤ st.held B.held y + ins.count y)
    (hnew : ∀ c, new.count (.completion c) = 0 ∧ new.count (.settler c) = 0)
    (hplain : ∀ x, x.plain = true → st.holders x + new.count x ≤ st'.holders x)
    (htally : ∀ c, st'.tally? c = st.tally? c)
    (hframes : ∀ k fs, st.frames? k = some fs → st'.frames? k = some fs) :
    Covered B st' K (loose new ++ (outs ++ ys)) := by
  refine Covered.step [] new ins outs h (worth_mono hheld) (fun c => hheld _)
    (fun n n' _ hle hafford => ⟨fun c => ?_, fun x hx => ?_⟩)
    (fun c n hn _ => ⟨n, (htally c).trans hn⟩)
    (fun c t ht => h.hopeful c t ((htally c).symm.trans ht)) (fun k fs _ => hframes k fs)
  · rw [htally]
    have hreader := hle (.completion c)
    have hsettler := hle (.settler c)
    obtain ⟨hzero, hzero'⟩ := hnew c
    simp only [List.count_nil] at hreader hsettler
    exact (hafford.completions c).mono (by omega) (by omega)
  · have hone := hle x
    have hcounted := hafford.plain x hx
    have hmore := hplain x hx
    simp only [List.count_nil] at hone
    omega

/-- A handle that is held loosely is not a task's. -/
theorem Covered.not_task (h : Covered B st K ys) (hc : 0 < holdings B st K ys (.loose (.settler c))) :
    holdings B st K ys (.task c) = 0 := by
  by_contra hne
  obtain ⟨n, hn⟩ := h.own c (Nat.pos_of_ne_zero hne)
  have hafford := h.afford.completions c
  rw [hn] at hafford
  simp only [Tally.Affords, if_true, worth] at hafford
  omega

/-- The settler of a new completion is given to a task. -/
theorem Covered.adopt (h : Covered B st K (.loose (.settler c) :: ys)) {n : Nat}
    (hc : st.tally? c = some ⟨n, 1, true⟩) : Covered B st K (.task c :: ys) where
  afford := by
    refine h.afford.mono fun x _ => Nat.le_of_eq ?_
    cases x with
    | settler c' =>
      by_cases heq : c' = c
      · subst heq
        simp only [worth, holdings, List.count_cons_self, List.count_cons_of_ne, ne_eq,
          reduceCtorEq, not_false_eq_true]
        omega
      · have hne : Share.task c ≠ .task c' := fun h => heq (Share.task.inj h).symm
        have hne' : Share.loose (.settler c) ≠ .loose (.settler c') := fun h => by
          cases h
          exact heq rfl
        simp only [worth, holdings, List.count_cons_of_ne hne, List.count_cons_of_ne hne',
          List.count_cons_of_ne, ne_eq, reduceCtorEq, not_false_eq_true]
    | _ =>
      simp only [worth, holdings, List.count_cons_of_ne, ne_eq, reduceCtorEq, not_false_eq_true,
        Share.loose.injEq]
  own c' hc' := by
    by_cases heq : c' = c
    · exact ⟨n, heq ▸ hc⟩
    · have hne : Share.task c ≠ .task c' := fun h => heq (Share.task.inj h).symm
      refine h.own c' ?_
      simpa only [holdings, List.count_cons_of_ne hne, List.count_cons_of_ne, ne_eq, reduceCtorEq,
        not_false_eq_true] using hc'
  hopeful := h.hopeful
  backed := h.backed

/-- A task gives the settler of its completion away. -/
theorem Covered.resign (h : Covered B st K (.task c :: ys)) :
    Covered B st K (.loose (.settler c) :: ys) := by
  refine h.mono (fun x _ => ?_) fun c' => ?_
  · cases x with
    | settler c' =>
      by_cases heq : c' = c
      · subst heq
        simp only [worth, List.count_cons_self, List.count_cons_of_ne, ne_eq, reduceCtorEq,
          not_false_eq_true]
        omega
      · have hne : Share.task c ≠ .task c' := fun h => heq (Share.task.inj h).symm
        have hne' : Share.loose (.settler c) ≠ .loose (.settler c') := fun h => by
          cases h
          exact heq rfl
        simp only [worth, List.count_cons_of_ne hne, List.count_cons_of_ne hne',
          List.count_cons_of_ne, ne_eq, reduceCtorEq, not_false_eq_true, Nat.le_refl]
    | _ =>
      simp only [worth, List.count_cons_of_ne, ne_eq, reduceCtorEq, not_false_eq_true,
        Share.loose.injEq, Nat.le_refl]
  · simp only [List.count_cons_of_ne, ne_eq, reduceCtorEq, not_false_eq_true]
    exact List.count_le_count_cons

end Covered

end Strand
