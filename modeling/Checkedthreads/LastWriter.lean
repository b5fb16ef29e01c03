import Checkedthreads.Races

/-!
The last writer of every address, as the documentation of the detector defines it, against
the owners the detector keeps.

The last writer `w a` of an address is the current worker of the most recent store or modify
covering `a` that was handled in a region since the most recent `end_for`, or `0`. The
detector is meant to keep `w` in its owners and to report an access exactly where it meets a
byte last written by another worker. It does so as long as no store reports a race and every
access lies below `2^32`. The `break` after a report breaks the first condition: the reported
byte and the ones after it keep their old owner, so a later access by that old owner goes
unreported. The `(UInt)` cast of the index macros breaks the second: addresses `2^32` apart
share an owner.
-/

namespace Checkedthreads.LastWriter

open Pagetab OwnerMap Command Monitor

/-! ### The last writer -/

-- a store of an `end_for` command that the detector accepts
def EndsRegion (mem : ℕ → UInt8) (addr : ℕ) : Prop :=
  storedMagic mem addr = magic ∧ ctStrIs mem (addr + 4) constMagic = true ∧
    decodeOpcode mem addr = some .endFor

instance (mem : ℕ → UInt8) (addr : ℕ) : Decidable (EndsRegion mem addr) :=
  inferInstanceAs (Decidable (_ ∧ _ ∧ _))

/-- The last writer after a store or modify of `[addr, addr + size)` handled from the globals
`g`: an `end_for` forgets every writer, and in a region, its command processed, the store writes
its range. -/
def storeWriter (w : ℕ → ℤ) (g : Globals (ℕ → UInt8)) (mem : ℕ → UInt8) (stackEnd addr size : ℕ) :
    ℕ → ℤ :=
  let c := (onStoreCommand aClear mem stackEnd g addr).1
  let w' : ℕ → ℤ := if EndsRegion mem addr then fun _ => 0 else w
  if c.active then fun a => if addr ≤ a ∧ a < addr + size then c.currThread else w' a else w'

-- the last writer after one more event: a load writes nothing
def writerStep (w : ℕ → ℤ) (g : Globals (ℕ → UInt8)) (e : Event) : ℕ → ℤ :=
  match e.kind with
  | .load => w
  | .store | .modify => storeWriter w g e.mem e.stackEnd e.addr e.size

/-- The last writer after a run from `g`, with `w` the writers before it. The globals
`g_ct_active` and `g_ct_curr_thread` are followed as the detector keeps them. -/
def lastWriter (g : Globals (ℕ → UInt8)) (w : ℕ → ℤ) : List Event → ℕ → ℤ
  | [] => w
  | e :: es => lastWriter (aHandle g e).1 (writerStep w g e) es

/-! ### Owners follow the last writer until a store is reported -/

@[simp] lemma toUChar_zero : toUChar 0 = 0 := rfl

lemma onStoreCommand_pagetab (mem : ℕ → UInt8) (stackEnd : ℕ) (g : Globals (ℕ → UInt8))
    (addr : ℕ) : (onStoreCommand aClear mem stackEnd g addr).1.pagetab =
      if EndsRegion mem addr then aClear g.pagetab else g.pagetab := by
  unfold onStoreCommand EndsRegion
  split_ifs <;> simp_all [ctProcessCommand_pagetab]

-- below `2^32`, the low 32 bits of an address are the address
lemma mem_range_iff {addr size a : ℕ} (hlow : addr + size ≤ 2 ^ 32) (ha : a < 2 ^ 32) :
    (∃ i ∈ List.range size, uint a = uint (addr + i)) ↔ addr ≤ a ∧ a < addr + size := by
  simp only [List.mem_range, uint]
  constructor
  · rintro ⟨i, hi, he⟩; omega
  · rintro ⟨h1, h2⟩; exact ⟨a - addr, by omega, by omega⟩

-- the owners of the map after a load: those before
lemma aOnAccessLoop_load (stackEnd base size : ℕ) (is : List ℕ) (g : Globals (ℕ → UInt8)) :
    (aOnAccessLoop stackEnd base size false is g).1.pagetab = g.pagetab := by
  obtain ⟨pre, -, se, -, h, -⟩ := aOnAccessLoop_spec stackEnd base size false is g
  rw [h, storeOwners_false]

/-- A store or modify below `2^32` that reports no race keeps the owners below `2^32` equal to
the last writer. -/
lemma aOnStore_inv (g : Globals (ℕ → UInt8)) (w : ℕ → ℤ) (mem : ℕ → UInt8)
    (stackEnd addr size : ℕ) (hinv : ∀ a < 2 ^ 32, g.pagetab a = toUChar (w a))
    (hlow : addr + size ≤ 2 ^ 32) (hnr : ∀ d ∈ (aOnStore mem stackEnd g addr size).2, ¬ d.IsRace) :
    ∀ a < 2 ^ 32, (aOnStore mem stackEnd g addr size).1.pagetab a =
      toUChar (storeWriter w g mem stackEnd addr size a) := by
  intro a ha
  have hc : (onStoreCommand aClear mem stackEnd g addr).1.pagetab a =
      toUChar ((if EndsRegion mem addr then fun _ => 0 else w) a) := by
    rw [onStoreCommand_pagetab]; split_ifs <;> simp [aClear, hinv a ha]
  simp only [aOnStore, storeWriter] at hnr ⊢
  cases hact : (onStoreCommand aClear mem stackEnd g addr).1.active
  · simpa only [hact, Bool.false_eq_true, ↓reduceIte] using hc
  simp only [hact, ↓reduceIte] at hnr ⊢
  obtain ⟨pre, post, se, h, h1, h2⟩ := aOnAccessLoop_spec stackEnd addr size true
    (List.range size) (onStoreCommand aClear mem stackEnd g addr).1
  obtain ⟨-, rfl⟩ | ⟨i, rest, o, -, h2⟩ := h2
  · rw [List.append_nil] at h
    rw [h1, ← h]
    simp only [storeOwners_true, mem_range_iff hlow ha]
    by_cases hin : addr ≤ a ∧ a < addr + size
    · simp only [if_pos hin]
    · simpa only [if_neg hin] using hc
  · exact (hnr (.race _ (addr + i) addr size o)
      (List.mem_append_right _ (by rw [h2]; exact List.mem_singleton_self _)) rfl).elim

-- one event keeps the owners below `2^32` equal to the last writer
lemma writerStep_inv (g : Globals (ℕ → UInt8)) (w : ℕ → ℤ) (e : Event)
    (hinv : ∀ a < 2 ^ 32, g.pagetab a = toUChar (w a)) (hlow : e.addr + e.size ≤ 2 ^ 32)
    (hnr : e.kind ≠ .load → ∀ d ∈ (aHandle g e).2, ¬ d.IsRace) :
    ∀ a < 2 ^ 32, (aHandle g e).1.pagetab a = toUChar (writerStep w g e a) := by
  cases hk : e.kind <;> simp only [aHandle, writerStep, hk] at hnr ⊢
  · split_ifs
    · rw [aOnAccessLoop_load]; exact hinv
    · exact hinv
  · exact aOnStore_inv g w e.mem e.stackEnd e.addr e.size hinv hlow (hnr (by simp))
  · exact aOnStore_inv g w e.mem e.stackEnd e.addr e.size hinv hlow (hnr (by simp))

lemma lastWriter_inv (es : List Event) (g : Globals (ℕ → UInt8)) (w : ℕ → ℤ)
    (hinv : ∀ a < 2 ^ 32, g.pagetab a = toUChar (w a)) (hlow : ∀ e ∈ es, e.addr + e.size ≤ 2 ^ 32)
    (hnr : ∀ x ∈ es.zip (aRun g es).2, x.1.kind ≠ .load → ∀ d ∈ x.2, ¬ d.IsRace) :
    ∀ a < 2 ^ 32, (aRun g es).1.pagetab a = toUChar (lastWriter g w es a) := by
  induction es generalizing g w with
  | nil => exact hinv
  | cons e es ih =>
    simp only [aRun, List.zip_cons_cons, List.mem_cons, forall_eq_or_imp] at hnr
    exact ih _ _ (writerStep_inv g w e hinv (hlow e (List.mem_cons_self _ _)) hnr.1)
      (fun e' he' => hlow e' (List.mem_cons_of_mem _ he')) hnr.2

/-- **Owners follow the last writer until a store is reported.** On a run from the start whose
accesses lie below `2^32` and in which no store or modify reports a race, the owner that
`ct_get_page` leads to for every address below `2^32` is its last writer. -/
theorem ownerAt_eq_lastWriter (p : Bool) (es : List Event)
    (hlow : ∀ e ∈ es, e.addr + e.size ≤ 2 ^ 32)
    (hnr : ∀ x ∈ es.zip (run (Globals.init PT.init p) es).2, x.1.kind ≠ .load →
      ∀ d ∈ x.2, ¬ d.IsRace) :
    ∀ a < 2 ^ 32, (run (Globals.init PT.init p) es).1.pagetab.ownerAt a =
      toUChar (lastWriter (Globals.init (fun _ => 0) p) (fun _ => 0) es a) := by
  rw [run_diags_eq] at hnr
  rw [← map_pagetab PT.ownerAt, run_map_eq]
  exact lastWriter_inv es _ _ (fun _ _ => rfl) hlow hnr

-- worker `0` enters a region and writes `256` and `257`, and nothing is reported
theorem workerZero_owners_follow :
    (∀ e ∈ workerZeroWrites, e.addr + e.size ≤ 2 ^ 32) ∧
      ∀ a < 2 ^ 32, (run (Globals.init PT.init false) workerZeroWrites).1.pagetab.ownerAt a =
        toUChar (lastWriter (Globals.init (fun _ => 0) false) (fun _ => 0) workerZeroWrites a) :=
  ⟨by decide, ownerAt_eq_lastWriter false workerZeroWrites (by decide) (by
    rw [run_diags_eq]; decide)⟩

/-! ### Loads and the end of a region -/

/-- **A load changes no owner.** -/
theorem traceLoad_keeps_owners (stackEnd : ℕ) (g : Globals PT) (addr size : ℕ) :
    (traceLoad stackEnd g addr size).1.pagetab.ownerAt = g.pagetab.ownerAt := by
  have h := congrArg (fun r => r.1.pagetab)
    (handle_refines g ⟨.load, addr, size, fun _ => 0, stackEnd⟩)
  simp only [handle, map_pagetab] at h
  rw [← h, aHandle]
  split_ifs
  · exact aOnAccessLoop_load ..
  · rfl

-- after a store of an `end_for` command the owner map is all `0`
lemma aOnStore_endFor (mem : ℕ → UInt8) (stackEnd : ℕ) (g : Globals (ℕ → UInt8)) (addr size : ℕ)
    (h : EndsRegion mem addr) : (aOnStore mem stackEnd g addr size).1.pagetab = fun _ => 0 := by
  have hp : (onStoreCommand aClear mem stackEnd g addr).1.pagetab = fun _ => 0 := by
    rw [onStoreCommand_pagetab, if_pos h]; rfl
  have hc : (onStoreCommand aClear mem stackEnd g addr).1.currThread = 0 := by
    obtain ⟨hm, hc, hd⟩ := h
    simp [onStoreCommand, hm, ctProcessCommand, hc, dispatch, hd]
  simp only [aOnStore]
  split_ifs
  · obtain ⟨pre, -, se, -, h1, -⟩ := aOnAccessLoop_spec stackEnd addr size true (List.range size)
      (onStoreCommand aClear mem stackEnd g addr).1
    rw [h1]
    funext b
    simp [storeOwners_true, hp, hc]
  · exact hp

/-- **`end_for` forgets every owner.** After a store of an `end_for` command the detector takes,
no address has an owner. -/
theorem endFor_clears_owners (mem : ℕ → UInt8) (stackEnd : ℕ) (g : Globals PT) (addr size : ℕ)
    (h : EndsRegion mem addr) : ∀ a, (ctOnStore mem stackEnd g addr size).1.pagetab.ownerAt a = 0 := by
  have hr := congrArg (fun r => r.1.pagetab)
    (handle_refines g ⟨.store, addr, size, mem, stackEnd⟩)
  simp only [aHandle, handle, traceStore, map_pagetab] at hr
  intro a
  rw [← hr, aOnStore_endFor _ _ _ _ _ h]

-- worker `0`'s writes are forgotten at the `end_for` that follows them
theorem workerZero_forgotten :
    EndsRegion (cmdEvent "end_for" []).mem cmdAddr ∧
      ∀ a, (ctOnStore (cmdEvent "end_for" []).mem 0 afterWorkerZero cmdAddr 4).1.pagetab.ownerAt a =
        0 :=
  ⟨by decide, endFor_clears_owners _ _ _ _ _ (by decide)⟩

/-! ### A conflict hides a later one -/

-- worker `0` writes `256` and `257`; worker `1` writes them too and is reported at `256`
def reportedRun : List Event :=
  workerZeroWrites ++ [cmdEvent "thrd" [1, 0, 0, 0], access .store 256 2]

-- then worker `0` becomes current again, and reads `257`
def staleRun : List Event := reportedRun ++ [cmdEvent "thrd" [0, 0, 0, 0]]

-- the read of `257` by worker `0`
def staleRead : Event := access .load 257 1

/-- After worker `1`'s reported write, the owner byte of `256` that `ct_get_page` leads to
still holds worker `0`, while its last writer is worker `1`. -/
theorem reported_write_keeps_owner :
    ((run (Globals.init PT.init false) reportedRun).1.pagetab.getPage 256).1.owningThread
        ((run (Globals.init PT.init false) reportedRun).1.pagetab.getPage 256).2
        (byteInPage 256) = 1 ∧
      lastWriter (Globals.init (fun _ => 0) false) (fun _ => 0) reportedRun 256 = 2 := by
  rw [PT.owningThread_getPage, ← map_pagetab PT.ownerAt, run_map_eq]
  decide

/-- Before worker `0` reads `257`, the detector is in a region with worker `0` current, the
last writer of `257` is worker `1`, and `257` is not suppressed; the read is not reported. -/
theorem stale_owner_hides_race :
    (run (Globals.init PT.init false) staleRun).1.active = true ∧
      (run (Globals.init PT.init false) staleRun).1.currThread = 1 ∧
      lastWriter (Globals.init (fun _ => 0) false) (fun _ => 0) staleRun 257 = 2 ∧
      (ctSuppress 0 (run (Globals.init PT.init false) staleRun).1 257).2 = false ∧
      (handle (run (Globals.init PT.init false) staleRun).1 staleRead).2 = [] := by
  rw [← map_active PT.ownerAt, ← map_currThread PT.ownerAt, ← ctSuppress_map PT.ownerAt,
    ← (Prod.ext_iff.1 (handle_refines _ staleRead)).2, run_map_eq]
  decide

end Checkedthreads.LastWriter
