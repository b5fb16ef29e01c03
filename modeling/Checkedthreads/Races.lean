import Checkedthreads.Monitor
import Mathlib.Data.List.Range

/-!
What the monitor reports, and what it leaves in the owners.

A store into a command object never races with itself: `ct_process_command` points
`g_ct_last_cmd` at the object before the access is checked, and `ct_suppress` ignores every byte
of the last command object. An event prints at most one race. An access leaves the old owners
with the bytes before its first reported conflict given to the current worker: a store that
reports nothing owns its whole range, and one that reports a conflict leaves that byte and
every byte after it with the owner it had.
-/

namespace Checkedthreads.Monitor

open Pagetab OwnerMap Command

variable {σ : Type}

/-! ### A region with two workers -/

-- where the runtime keeps its command object
def cmdAddr : ℕ := 4096

-- the store of the tag word of a command whose payload is `op` followed by `arg`
def cmdEvent (op : String) (arg : List UInt8) : Event :=
  ⟨.store, cmdAddr, 4, memWith cmdAddr (cmdBytes (op.toList.map Char.toUInt8 ++ arg)), 0⟩

-- a plain access of `size` bytes at `addr`
def access (k : Kind) (addr size : ℕ) : Event := ⟨k, addr, size, fun _ => 0, 0⟩

-- a region is entered with worker `0` current
def regionEntered : List Event := [cmdEvent "iter" [0, 0, 0, 0], cmdEvent "thrd" [0, 0, 0, 0]]

-- then worker `0` writes the bytes `256` and `257`
def workerZeroWrites : List Event := regionEntered ++ [access .store 256 2]

-- the globals after `workerZeroWrites`
def afterWorkerZero : Globals PT := (run (Globals.init PT.init false) workerZeroWrites).1

/-! ### The command object is never a race -/

lemma ctSuppress_cmd (stackEnd : ℕ) (g : Globals σ) {p : ℕ}
    (h : g.lastCmd ≤ p ∧ p < g.lastCmd + ctCmdSize) : (ctSuppress stackEnd g p).2 = true := by
  simp only [ctSuppress]; split_ifs <;> simp [h]

lemma ctSuppress_stack (stackEnd : ℕ) (g : Globals σ) {p : ℕ} (h : stackEnd ≤ p ∧ p < g.stackbot) :
    (ctSuppress stackEnd g p).2 = true := by
  simp only [ctSuppress]; split_ifs <;> simp_all

-- a loop over bytes that `ct_suppress` ignores, for any `g_ct_stackend`, reports nothing
lemma onAccessLoop_no_race (stackEnd base size : ℕ) (store : Bool) (is : List ℕ) (g : Globals PT)
    (h : ∀ i ∈ is, ∀ g' : Globals PT, g'.stackbot = g.stackbot → g'.lastCmd = g.lastCmd →
      (ctSuppress stackEnd g' (base + i)).2 = true) :
    (onAccessLoop stackEnd base size store is g).2 = [] := by
  induction is generalizing g with
  | nil => rfl
  | cons i is ih =>
    have hr := fun g' (e1 : g'.stackbot = g.stackbot) (e2 : g'.lastCmd = g.lastCmd) =>
      ih g' fun j hj g'' f1 f2 => h j (List.mem_cons_of_mem _ hj) g'' (f1.trans e1) (f2.trans e2)
    simp only [onAccessLoop, h i (List.mem_cons_self _ _) g rfl rfl, if_true]
    split_ifs <;> exact hr _ rfl rfl

/-- **A command object never races.** A store or modify of at most `sizeof(ct_cmd)` bytes into
a tagged command object reports no race, whatever its opcode, the state and the owners. -/
theorem ctOnStore_command_no_race (mem : ℕ → UInt8) (stackEnd : ℕ) (g : Globals PT)
    (addr size : ℕ) (hsize : size ≤ ctCmdSize) (hm : storedMagic mem addr = magic)
    (hc : ctStrIs mem (addr + 4) constMagic = true) :
    ∀ d ∈ (ctOnStore mem stackEnd g addr size).2, ¬ d.IsRace := by
  have hcmd : onStoreCommand PT.clear mem stackEnd g addr =
      ctProcessCommand PT.clear mem stackEnd g addr := if_pos hm
  have hl := ctProcessCommand_lastCmd PT.clear mem stackEnd g addr hc
  have hn := ctProcessCommand_not_race PT.clear mem stackEnd g addr
  simp only [ctOnStore, ctOnAccess, hcmd]
  split_ifs
  · rw [onAccessLoop_no_race _ _ _ _ _ _ fun i hi g' _ e => ctSuppress_cmd _ _ (by
      rw [e, hl]; rw [List.mem_range] at hi; omega), List.append_nil]
    exact hn
  · exact hn

-- worker `1` announces itself while the command bytes are owned by worker `0`
theorem thrd_command_no_race :
    storedMagic (cmdEvent "thrd" [1, 0, 0, 0]).mem cmdAddr = magic ∧
      ∀ d ∈ (ctOnStore (cmdEvent "thrd" [1, 0, 0, 0]).mem 0 afterWorkerZero cmdAddr 4).2,
        ¬ d.IsRace :=
  ⟨by decide, ctOnStore_command_no_race _ _ _ _ _ (by decide) (by decide) (by decide)⟩

/-! ### The owners an access leaves -/

-- the owner map after the owner updates of the bytes `base + i`, `i ∈ is`, in order
def storeOwners (store : Bool) (f : ℕ → UInt8) (base : ℕ) (is : List ℕ) (v : UInt8) :
    ℕ → UInt8 :=
  is.foldl (fun f i => aStoreOwner store f (base + i) v) f

@[simp] lemma storeOwners_false (f : ℕ → UInt8) (base : ℕ) (is : List ℕ) (v : UInt8) :
    storeOwners false f base is v = f := by
  induction is generalizing f with
  | nil => rfl
  | cons i is ih => exact ih f

lemma storeOwners_true (f : ℕ → UInt8) (base : ℕ) (is : List ℕ) (v : UInt8) (b : ℕ) :
    storeOwners true f base is v b = if ∃ i ∈ is, uint b = uint (base + i) then v else f b := by
  induction is generalizing f with
  | nil => simp [storeOwners]
  | cons i is ih =>
    rw [storeOwners, List.foldl_cons, ← storeOwners, ih]
    by_cases h : uint b = uint (base + i) <;> simp [aStoreOwner, setOwner, h]

/-- The loop over the owner map stops at its first reported conflict, if any: the bytes before
it are updated, and what it prints is that one race. -/
lemma aOnAccessLoop_spec (stackEnd base size : ℕ) (store : Bool) (is : List ℕ)
    (g : Globals (ℕ → UInt8)) :
    ∃ pre post se, is = pre ++ post ∧
      (aOnAccessLoop stackEnd base size store is g).1 =
        { g with pagetab := storeOwners store g.pagetab base pre (toUChar g.currThread),
                 stackend := se } ∧
      ((aOnAccessLoop stackEnd base size store is g).2 = [] ∧ post = [] ∨
        ∃ i rest o, post = i :: rest ∧
          (aOnAccessLoop stackEnd base size store is g).2 =
            [.race (g.currThread - 1) (base + i) base size o]) := by
  induction is generalizing g with
  | nil => exact ⟨[], [], g.stackend, rfl, rfl, .inl ⟨rfl, rfl⟩⟩
  | cons i is ih =>
    simp only [aOnAccessLoop]
    split_ifs
    · obtain ⟨pre, post, se, rfl, h1, h2⟩ := ih _
      exact ⟨i :: pre, post, se, rfl, h1, h2⟩
    · exact ⟨[], i :: is, _, rfl, rfl, .inr ⟨i, is, _, rfl, rfl⟩⟩
    · obtain ⟨pre, post, se, rfl, h1, h2⟩ := ih _
      exact ⟨i :: pre, post, se, rfl, h1, h2⟩

-- the same over the page table, read through the owner map
lemma onAccessLoop_spec (stackEnd base size : ℕ) (store : Bool) (is : List ℕ) (g : Globals PT) :
    ∃ pre post, is = pre ++ post ∧
      (onAccessLoop stackEnd base size store is g).1.pagetab.ownerAt =
        storeOwners store g.pagetab.ownerAt base pre (toUChar g.currThread) ∧
      (onAccessLoop stackEnd base size store is g).1.active = g.active ∧
      (onAccessLoop stackEnd base size store is g).1.currThread = g.currThread ∧
      ((onAccessLoop stackEnd base size store is g).2 = [] ∧ post = [] ∨
        ∃ i rest o, post = i :: rest ∧
          (onAccessLoop stackEnd base size store is g).2 =
            [.race (g.currThread - 1) (base + i) base size o]) := by
  obtain ⟨pre, post, se, h, h1, h2⟩ := aOnAccessLoop_spec stackEnd base size store is
    (g.map PT.ownerAt)
  rw [onAccessLoop_refines] at h1 h2
  simp only [Globals.map, Globals.mk.injEq] at h1
  exact ⟨pre, post, h, h1.2.2.1, h1.1, h1.2.1, h2⟩

lemma length_onAccessLoop_le (stackEnd base size : ℕ) (store : Bool) (is : List ℕ)
    (g : Globals PT) : (onAccessLoop stackEnd base size store is g).2.length ≤ 1 := by
  obtain ⟨_, _, _, _, _, _, h | ⟨_, _, _, _, h⟩⟩ := onAccessLoop_spec stackEnd base size store is g
  · simp [h.1]
  · simp [h]

lemma onStoreCommand_not_race (clear : σ → σ) (mem : ℕ → UInt8) (stackEnd : ℕ) (g : Globals σ)
    (addr : ℕ) : ∀ d ∈ (onStoreCommand clear mem stackEnd g addr).2, ¬ d.IsRace := by
  unfold onStoreCommand
  split_ifs
  · exact ctProcessCommand_not_race clear mem stackEnd g addr
  · simp

/-- **One report per event.** However many of its bytes conflict, an event prints at most one
race. -/
theorem handle_races_le_one (g : Globals PT) (e : Event) :
    ((handle g e).2.filter Diag.isRace).length ≤ 1 := by
  have hc := onStoreCommand_not_race PT.clear e.mem e.stackEnd g e.addr
  have hc' : (onStoreCommand PT.clear e.mem e.stackEnd g e.addr).2.filter Diag.isRace = [] :=
    List.filter_eq_nil_iff.2 fun d hd => by simpa [Diag.IsRace] using hc d hd
  have hl := fun store is (g : Globals PT) => (List.length_filter_le Diag.isRace _).trans
    (length_onAccessLoop_le e.stackEnd e.addr e.size store is g)
  cases hk : e.kind <;>
    simp only [handle, hk, traceLoad, traceStore, traceModify, ctOnStore, ctOnAccess] <;>
    split_ifs <;> simp [List.filter_append, hc', hl]

lemma range_eq_append {n k : ℕ} {pre rest : List ℕ} (h : List.range n = pre ++ k :: rest) :
    pre = List.range k := by
  have hk : k = pre.length := by
    have hlt : pre.length < (List.range n).length := by rw [h]; simp
    have := List.getElem_range pre.length hlt
    simp only [h, List.getElem_append_right (Nat.le_refl _), Nat.sub_self,
      List.getElem_cons_zero] at this
    exact this
  have := @List.take_left' _ pre (k :: rest) _ rfl
  rw [← h, List.take_range, ← hk] at this
  rw [← this, Nat.min_eq_left]
  have : k < (List.range n).length := by rw [h]; simp [hk]
  simpa using this.le

/-- **A store that reports nothing owns its range.** When a store or modify in a region prints
no race, every byte it wrote is then owned by the current worker. -/
theorem ctOnStore_owns_range (mem : ℕ → UInt8) (stackEnd : ℕ) (g : Globals PT) (addr size : ℕ)
    (hact : (onStoreCommand PT.clear mem stackEnd g addr).1.active = true)
    (hnr : ∀ d ∈ (ctOnStore mem stackEnd g addr size).2, ¬ d.IsRace) :
    ∀ i < size, (ctOnStore mem stackEnd g addr size).1.pagetab.ownerAt (addr + i) =
      toUChar (onStoreCommand PT.clear mem stackEnd g addr).1.currThread := by
  simp only [ctOnStore, ctOnAccess, hact, if_true] at hnr ⊢
  obtain ⟨pre, post, h, h1, -, -, h2⟩ := onAccessLoop_spec stackEnd addr size true
    (List.range size) (onStoreCommand PT.clear mem stackEnd g addr).1
  obtain ⟨-, rfl⟩ | ⟨i, rest, o, -, h2⟩ := h2
  · rw [List.append_nil] at h
    intro i hi
    rw [h1, storeOwners_true, if_pos ⟨i, by rw [← h, List.mem_range]; exact hi, rfl⟩]
  · exact (hnr (.race _ (addr + i) addr size o)
      (List.mem_append_right _ (by rw [h2]; exact List.mem_singleton_self _)) rfl).elim

-- a region in which worker `0` is current and nothing is owned yet
def inRegion : Globals PT := { Globals.init PT.init false with active := true, currThread := 1 }

-- worker `0` writes `256` and `257`
theorem workerZero_owns_range :
    (onStoreCommand PT.clear (fun _ => 0) 0 inRegion 256).1.active = true ∧
      ∀ i < 2, (ctOnStore (fun _ => 0) 0 inRegion 256 2).1.pagetab.ownerAt (256 + i) =
        toUChar (onStoreCommand PT.clear (fun _ => 0) 0 inRegion 256).1.currThread :=
  ⟨by decide, ctOnStore_owns_range _ _ _ _ _ (by decide) (by decide)⟩

/-- **The break skips the owner update.** When a store reports a race on byte `base + k`, the
bytes before it pass to the current worker, and that byte and every byte after it keep the
owner they had. -/
theorem ctOnAccess_race_owners (stackEnd : ℕ) (g : Globals PT) (base size k : ℕ) (o : ℤ)
    (hsize : size ≤ 2 ^ 32)
    (hr : (ctOnAccess stackEnd g base size true).2 = [.race (g.currThread - 1) (base + k) base size o]) :
    ∀ j < size, (ctOnAccess stackEnd g base size true).1.pagetab.ownerAt (base + j) =
      if j < k then toUChar g.currThread else g.pagetab.ownerAt (base + j) := by
  obtain ⟨pre, post, h, h1, -, -, h2⟩ := onAccessLoop_spec stackEnd base size true
    (List.range size) g
  unfold ctOnAccess at hr ⊢
  obtain ⟨hn, -⟩ | ⟨i, rest, o', rfl, h2⟩ := h2
  · simp [hr] at hn
  obtain rfl : i = k := by rw [h2] at hr; simp at hr; exact hr.1
  obtain rfl := range_eq_append h
  intro j hj
  rw [h1, storeOwners_true]
  by_cases hjk : j < i
  · rw [if_pos ⟨j, List.mem_range.2 hjk, rfl⟩, if_pos hjk]
  · rw [if_neg hjk, if_neg]
    rintro ⟨j', hj', he⟩
    rw [List.mem_range] at hj'
    simp only [uint] at he
    omega

-- worker `1` is current and byte `256` is owned by worker `0`
def zeroOwns256 : Globals PT :=
  { inRegion with currThread := 2, pagetab :=
      (PT.init.getPage 256).1.setOwningThread (PT.init.getPage 256).2 (byteInPage 256) 1 }

-- worker `1` is current and byte `257` is owned by worker `0`
def zeroOwns257 : Globals PT :=
  { inRegion with currThread := 2, pagetab :=
      (PT.init.getPage 257).1.setOwningThread (PT.init.getPage 257).2 (byteInPage 257) 1 }

-- worker `1` writes `256` to `258`, is reported at `257`, and takes `256` only
theorem workerOne_race_keeps_owners :
    (ctOnAccess 0 zeroOwns257 256 3 true).2 =
        [.race (zeroOwns257.currThread - 1) (256 + 1) 256 3 0] ∧
      ∀ j < 3, (ctOnAccess 0 zeroOwns257 256 3 true).1.pagetab.ownerAt (256 + j) =
        if j < 1 then toUChar zeroOwns257.currThread else zeroOwns257.pagetab.ownerAt (256 + j) := by
  have hr : (ctOnAccess 0 zeroOwns257 256 3 true).2 =
      [.race (zeroOwns257.currThread - 1) (256 + 1) 256 3 0] := by
    rw [ctOnAccess, ← (Prod.ext_iff.1 (onAccessLoop_refines 0 256 3 true _ _)).2]; decide
  exact ⟨hr, ctOnAccess_race_owners 0 zeroOwns257 256 3 1 0 (by decide) hr⟩

/-! ### The stack is never a race -/

/-- **A worker's own stack never races.** An access whose bytes lie between what
`ct_stack_end()` returns and `g_ct_stackbot` reports nothing, whatever the owners. -/
theorem ctOnAccess_stack_no_race (stackEnd : ℕ) (g : Globals PT) (base size : ℕ) (store : Bool)
    (h1 : stackEnd ≤ base) (h2 : base + size ≤ g.stackbot) :
    (ctOnAccess stackEnd g base size store).2 = [] :=
  onAccessLoop_no_race _ _ _ _ _ _ fun i hi g' e _ => ctSuppress_stack _ _ (by
    rw [e]; rw [List.mem_range] at hi; omega)

-- worker `1` writes `256` and `257`, owned by worker `0`, inside its own stack
theorem stack_write_unreported :
    0 ≤ 256 ∧ 256 + 2 ≤ { zeroOwns256 with stackbot := 512 }.stackbot ∧
      (ctOnAccess 0 { zeroOwns256 with stackbot := 512 } 256 2 true).2 = [] :=
  ⟨by decide, by decide, ctOnAccess_stack_no_race _ _ _ _ _ (by decide) (by decide)⟩

end Checkedthreads.Monitor
