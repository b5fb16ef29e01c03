import Checkedthreads.Races

/-!
A modify is a load and a store.

`addEvent_Dw` does not record a store of `dsize` bytes at `daddr` when the event just before it
is a load of the same bytes: it turns that load into a modify, and the flush then calls
`trace_modify` once where `trace_load` and `trace_store` would have run one after the other.
`trace_modify` is `ct_on_store`, so the merge is sound when one store-side check of the bytes
does what a load-side check followed by a store-side check does.

It does, unless the store is a command. A load never changes an owner, and the store's own
owner updates touch only bytes it has passed, so the two loops meet the same conflicts and
report the same one. What is left is `g_ct_stackend`, which `ct_suppress` re-reads on a byte
below it: the load may leave it set to `ct_stack_end()` for the store. Then the first conflict
of the access lies below the old value, since the bytes of an access rise, and at that byte
`ct_suppress` re-reads `ct_stack_end()` in either case before it answers.
-/

namespace Checkedthreads.Monitor

open Pagetab OwnerMap Command

/-- Byte `p` conflicts with the current worker `c`: the owner map `f` gives it an owner, and
another one. -/
def Conflicts (f : ℕ → UInt8) (c : ℤ) (p : ℕ) : Prop :=
  ((f p).toNat : ℤ) ≠ 0 ∧ ((f p).toNat : ℤ) ≠ c

instance (f : ℕ → UInt8) (c : ℤ) (p : ℕ) : Decidable (Conflicts f c p) :=
  inferInstanceAs (Decidable (_ ∧ _))

-- some byte `base + i`, `i ∈ is`, conflicts and lies below `g_ct_stackend`
def ConflictBelow (base : ℕ) (g : Globals (ℕ → UInt8)) (is : List ℕ) : Prop :=
  ∃ i ∈ is, Conflicts g.pagetab g.currThread (base + i) ∧ base + i < g.stackend

variable {σ : Type} (S base size : ℕ)

/-! ### `ct_suppress` and `g_ct_stackend` -/

-- `ct_suppress` leaves `g_ct_stackend` alone, or sets it to `ct_stack_end()` on a byte below it
lemma ctSuppress_stackend (g : Globals σ) (p : ℕ) :
    (ctSuppress S g p).1 = g.stackend ∨ ((ctSuppress S g p).1 = S ∧ p < g.stackend) := by
  simp only [ctSuppress]; split_ifs <;> simp [*]

-- below `g_ct_stackend`, `ct_suppress` answers as if `g_ct_stackend` were already `ct_stack_end()`
lemma ctSuppress_refresh (g : Globals σ) {p : ℕ} (hp : p < g.stackend) :
    ctSuppress S { g with stackend := S } p = ctSuppress S g p := by
  simp only [ctSuppress]; split_ifs <;> simp_all <;> omega

@[simp] lemma ctSuppress_pagetab (g : Globals σ) (f : σ) (p : ℕ) :
    ctSuppress S { g with pagetab := f } p = ctSuppress S g p := rfl

@[simp] lemma aStoreOwner_false (f : ℕ → UInt8) (a : ℕ) (v : UInt8) :
    aStoreOwner false f a v = f := rfl

lemma aStoreOwner_ne (store : Bool) (f : ℕ → UInt8) {a b : ℕ} (v : UInt8) (h : uint b ≠ uint a) :
    aStoreOwner store f a v b = f b := by
  cases store <;> simp [aStoreOwner, setOwner, h]

-- two bytes of one access of at most `2^32` bytes have different owners
lemma uint_add_ne {i j : ℕ} (hij : i < j) (hj : j < 2 ^ 32) :
    uint (base + j) ≠ uint (base + i) := by
  simp only [uint]; omega

/-! ### The loop of `ct_on_access`, as a load and as a store -/

/-- A load and a store of the same bytes, over owner maps that agree on those bytes, meet the
same conflicts: the store's own updates touch only bytes it has passed. They print the same
thing and leave `g_ct_stackend` alike; the load changes nothing else. -/
lemma load_eq_store (is : List ℕ) (hp : is.Pairwise (· < ·)) (hb : ∀ i ∈ is, i < 2 ^ 32)
    (g : Globals (ℕ → UInt8)) (f : ℕ → UInt8)
    (hf : ∀ i ∈ is, f (base + i) = g.pagetab (base + i)) :
    aOnAccessLoop S base size false is g =
      ({ g with stackend := (aOnAccessLoop S base size true is { g with pagetab := f }).1.stackend },
        (aOnAccessLoop S base size true is { g with pagetab := f }).2) := by
  induction is generalizing g f with
  | nil => rfl
  | cons i is ih =>
    rw [List.pairwise_cons] at hp
    have hb' := fun j (hj : j ∈ is) => hb j (List.mem_cons_of_mem _ hj)
    have hf' : ∀ j ∈ is, setOwner f (base + i) (toUChar g.currThread) (base + j) =
        g.pagetab (base + j) := fun j hj => by
      rw [← hf j (List.mem_cons_of_mem _ hj)]
      exact aStoreOwner_ne true f _ (uint_add_ne base (hp.1 j hj) (hb' j hj))
    simp only [aOnAccessLoop, hf i (List.mem_cons_self _ _), aStoreOwner_false, ctSuppress_pagetab]
    split_ifs
    · exact ih hp.2 hb' _ _ hf'
    · rfl
    · exact ih hp.2 hb' _ _ hf'

lemma conflictBelow_cons {g : Globals (ℕ → UInt8)} {i : ℕ} {is : List ℕ}
    (h : ConflictBelow base g is) : ConflictBelow base g (i :: is) :=
  let ⟨j, hj, hc⟩ := h; ⟨j, List.mem_cons_of_mem _ hj, hc⟩

-- a load sets `g_ct_stackend` to `ct_stack_end()` only on a conflict below it
lemma load_stackend (is : List ℕ) (g : Globals (ℕ → UInt8)) :
    (aOnAccessLoop S base size false is g).1.stackend = g.stackend ∨
      ((aOnAccessLoop S base size false is g).1.stackend = S ∧ ConflictBelow base g is) := by
  induction is generalizing g with
  | nil => exact .inl rfl
  | cons i is ih =>
    simp only [aOnAccessLoop, aStoreOwner_false]
    split_ifs with hc hs
    · rcases ctSuppress_stackend S g (base + i) with he | ⟨he, hlt⟩
      · rcases ih { g with stackend := (ctSuppress S g (base + i)).1 } with h | ⟨h, hb⟩
        · exact .inl (h.trans he)
        · exact .inr ⟨h, conflictBelow_cons base (by simpa [ConflictBelow, he] using hb)⟩
      · have h := ih { g with stackend := (ctSuppress S g (base + i)).1 }
        exact .inr ⟨h.elim (·.trans he) And.left, i, List.mem_cons_self _ _, hc, hlt⟩
    · rcases ctSuppress_stackend S g (base + i) with he | ⟨he, hlt⟩
      · exact .inl he
      · exact .inr ⟨he, i, List.mem_cons_self _ _, hc, hlt⟩
    · rcases ih g with h | ⟨h, hb⟩
      · exact .inl h
      · exact .inr ⟨h, conflictBelow_cons base hb⟩

/-- A loop that meets a conflict below `g_ct_stackend` ends as it would had `g_ct_stackend`
been `ct_stack_end()` from the start: its bytes rise, so the first conflict it meets is below
`g_ct_stackend` too, and there `ct_suppress` re-reads `ct_stack_end()` before it answers. -/
lemma stackend_restart (store : Bool) (is : List ℕ) (hp : is.Pairwise (· < ·))
    (hb : ∀ i ∈ is, i < 2 ^ 32) (g : Globals (ℕ → UInt8)) (h : ConflictBelow base g is) :
    aOnAccessLoop S base size store is { g with stackend := S } =
      aOnAccessLoop S base size store is g := by
  induction is generalizing g with
  | nil => obtain ⟨_, h, _⟩ := h; cases h
  | cons i is ih =>
    rw [List.pairwise_cons] at hp
    obtain ⟨j, hj, hcj, hlt⟩ := h
    simp only [aOnAccessLoop]
    by_cases hc : Conflicts g.pagetab g.currThread (base + i)
    · have hi : base + i < g.stackend := by
        rcases List.mem_cons.1 hj with rfl | hj
        · exact hlt
        · have := hp.1 j hj; omega
      simp only [Conflicts] at hc
      simp only [hc, ne_eq, not_false_eq_true, and_self, if_true, ctSuppress_refresh S g hi]
    · have hj' : j ∈ is := by
        rcases List.mem_cons.1 hj with rfl | hj
        · exact absurd hcj hc
        · exact hj
      simp only [Conflicts] at hc
      simp only [hc, if_false]
      refine ih hp.2 (fun k hk => hb k (List.mem_cons_of_mem _ hk))
        { g with pagetab := aStoreOwner store g.pagetab (base + i) (toUChar g.currThread) }
        ⟨j, hj', ?_, hlt⟩
      simpa only [Conflicts, aStoreOwner_ne store _ _ (uint_add_ne base (hp.1 j hj')
        (hb j (List.mem_cons_of_mem _ hj')))] using hcj

/-! ### The merge -/

-- a store that is not a command is, in a region, the store-side loop of `ct_on_access`
lemma aOnStore_of_not_cmd (mem : ℕ → UInt8) (g : Globals (ℕ → UInt8)) (addr : ℕ)
    (hcmd : storedMagic mem addr ≠ magic) :
    aOnStore mem S g addr size =
      if g.active then aOnAccessLoop S addr size true (List.range size) g else (g, []) := by
  simp only [aOnStore, onStoreCommand, if_neg hcmd, List.nil_append]

/-- Over the owner map: a load and then a store of the same bytes end where the modify ends,
and each prints what the modify prints. -/
lemma aRun_load_store (g : Globals (ℕ → UInt8)) (mem : ℕ → UInt8) (addr : ℕ)
    (hsize : size ≤ 2 ^ 32) (hcmd : storedMagic mem addr ≠ magic) :
    aRun g [⟨.load, addr, size, mem, S⟩, ⟨.store, addr, size, mem, S⟩] =
      ((aHandle g ⟨.modify, addr, size, mem, S⟩).1,
        [(aHandle g ⟨.modify, addr, size, mem, S⟩).2, (aHandle g ⟨.modify, addr, size, mem, S⟩).2]) := by
  have hp := List.pairwise_lt_range size
  have hb : ∀ i ∈ List.range size, i < 2 ^ 32 := fun i hi => by rw [List.mem_range] at hi; omega
  have hl : aOnAccessLoop S addr size false (List.range size) g =
      ({ g with stackend := (aOnAccessLoop S addr size true (List.range size) g).1.stackend },
        (aOnAccessLoop S addr size true (List.range size) g).2) :=
    load_eq_store S addr size _ hp hb g g.pagetab fun _ _ => rfl
  have hr : aOnAccessLoop S addr size true (List.range size)
      { g with stackend := (aOnAccessLoop S addr size true (List.range size) g).1.stackend } =
      aOnAccessLoop S addr size true (List.range size) g := by
    rcases load_stackend S addr size (List.range size) g with h | ⟨h, hc⟩ <;>
      simp only [hl] at h <;> rw [h]
    exact stackend_restart S addr size true _ hp hb g hc
  by_cases hact : g.active
  · simp only [aRun, aHandle, aOnStore_of_not_cmd S size mem _ addr hcmd, if_pos hact, hl, hr]
  · simp [aRun, aHandle, aOnStore_of_not_cmd S size mem _ addr hcmd, hact]

/-- **A modify is a load and a store.** Unless it is a command, a `trace_modify` of `size`
bytes leaves the detector where `trace_load` and then `trace_store` of the same bytes leave it,
up to how the page table lays out its owners, and each of the two prints what the modify
prints: merging a load and a store of the same bytes into one modify loses no race report and
changes no owner, it only prints a report once. -/
theorem modify_eq_load_store (g : Globals PT) (addr size : ℕ) (mem : ℕ → UInt8) (stackEnd : ℕ)
    (hsize : size ≤ 2 ^ 32) (hcmd : storedMagic mem addr ≠ magic) :
    (run g [⟨.load, addr, size, mem, stackEnd⟩, ⟨.store, addr, size, mem, stackEnd⟩]).1.map
        PT.ownerAt = (handle g ⟨.modify, addr, size, mem, stackEnd⟩).1.map PT.ownerAt ∧
      (run g [⟨.load, addr, size, mem, stackEnd⟩, ⟨.store, addr, size, mem, stackEnd⟩]).2 =
        [(handle g ⟨.modify, addr, size, mem, stackEnd⟩).2,
          (handle g ⟨.modify, addr, size, mem, stackEnd⟩).2] := by
  have h := aRun_load_store stackEnd size (g.map PT.ownerAt) mem addr hsize hcmd
  rw [handle_refines] at h
  rw [run_map_eq, run_diags_eq, h]
  exact ⟨rfl, rfl⟩

-- worker `1` reads and writes back two bytes, the first owned by worker `0`
theorem workerOne_modify_eq_load_store :
    2 ≤ 2 ^ 32 ∧ storedMagic (fun _ => 0) 256 ≠ magic ∧
      (run zeroOwns256 [access .load 256 2, access .store 256 2]).1.map PT.ownerAt =
          (handle zeroOwns256 (access .modify 256 2)).1.map PT.ownerAt ∧
        (run zeroOwns256 [access .load 256 2, access .store 256 2]).2 =
          [(handle zeroOwns256 (access .modify 256 2)).2,
            (handle zeroOwns256 (access .modify 256 2)).2] :=
  ⟨by decide, by decide, modify_eq_load_store _ _ _ _ _ (by decide) (by decide)⟩

/-! ### Over whole runs -/

/-- The trace without the merges of `addEvent_Dw`: every modify split back into the load and
the store of its bytes. -/
def unmerge (es : List Event) : List Event :=
  es.flatMap fun e =>
    if e.kind = .modify then [{ e with kind := .load }, { e with kind := .store }] else [e]

/-- What the events of the split trace print, from what those of `es` print: a modify's report
twice. -/
def splitDiags (es : List Event) (ds : List (List Diag)) : List (List Diag) :=
  (es.zip ds).flatMap fun p => if p.1.kind = .modify then [p.2, p.2] else [p.2]

lemma aRun_append (g : Globals (ℕ → UInt8)) (xs ys : List Event) :
    aRun g (xs ++ ys) = ((aRun (aRun g xs).1 ys).1, (aRun g xs).2 ++ (aRun (aRun g xs).1 ys).2) := by
  induction xs generalizing g with
  | nil => rfl
  | cons e xs ih => simp [aRun, ih]

-- over the owner map, the split trace ends where the merged one ends
lemma aRun_unmerge (g : Globals (ℕ → UInt8)) (es : List Event)
    (h : ∀ e ∈ es, e.kind = .modify → e.size ≤ 2 ^ 32 ∧ storedMagic e.mem e.addr ≠ magic) :
    aRun g (unmerge es) = ((aRun g es).1, splitDiags es (aRun g es).2) := by
  induction es generalizing g with
  | nil => rfl
  | cons e es ih =>
    have ih' := ih (aHandle g e).1 fun e' he' => h e' (List.mem_cons_of_mem _ he')
    obtain ⟨k, addr, size, mem, S⟩ := e
    have hu : unmerge (⟨k, addr, size, mem, S⟩ :: es) =
        (if k = .modify then [⟨.load, addr, size, mem, S⟩, ⟨.store, addr, size, mem, S⟩]
          else [⟨k, addr, size, mem, S⟩]) ++ unmerge es := List.flatMap_cons _ _ _
    rw [hu, aRun_append]
    by_cases hk : k = .modify
    · subst hk
      obtain ⟨hs, hc⟩ := h _ (List.mem_cons_self _ _) rfl
      rw [if_pos rfl, aRun_load_store S size g mem addr hs hc]
      simp [aRun, ih', splitDiags]
    · simp [aRun, ih', splitDiags, hk]

/-- **Merging is sound over whole runs.** On any trace whose modifies are no commands, the
detector run on the trace with every modify split back into its load and its store ends with
the owners it ends with on the trace itself, and prints what it prints there, a modify's report
twice. -/
theorem run_unmerge (g : Globals PT) (es : List Event)
    (h : ∀ e ∈ es, e.kind = .modify → e.size ≤ 2 ^ 32 ∧ storedMagic e.mem e.addr ≠ magic) :
    (run g (unmerge es)).1.map PT.ownerAt = (run g es).1.map PT.ownerAt ∧
      (run g (unmerge es)).2 = splitDiags es (run g es).2 := by
  rw [run_map_eq, run_map_eq, run_diags_eq, run_diags_eq, aRun_unmerge _ _ h]
  exact ⟨rfl, rfl⟩

-- worker `1` reads a byte, then reads and writes back two bytes, the first owned by worker `0`
theorem workerOne_unmerge :
    (∀ e ∈ [access .load 257 1, access .modify 256 2], e.kind = .modify →
        e.size ≤ 2 ^ 32 ∧ storedMagic e.mem e.addr ≠ magic) ∧
      (run zeroOwns256 (unmerge [access .load 257 1, access .modify 256 2])).1.map PT.ownerAt =
          (run zeroOwns256 [access .load 257 1, access .modify 256 2]).1.map PT.ownerAt ∧
        (run zeroOwns256 (unmerge [access .load 257 1, access .modify 256 2])).2 =
          splitDiags [access .load 257 1, access .modify 256 2]
            (run zeroOwns256 [access .load 257 1, access .modify 256 2]).2 :=
  ⟨by decide, run_unmerge _ _ (by decide)⟩

end Checkedthreads.Monitor
