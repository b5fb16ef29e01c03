import Checkedthreads.LastWriter
import Checkedthreads.Modify

/-!
Every owner is a writer, on every run.

The owners follow the last writer only until a store is reported (`ownerAt_eq_lastWriter`):
the `break` leaves the rest of a reported store with older owners. They never hold anything but
a writer, though. Every owner byte is `0` or the byte of a worker that stored the address since
the last `end_for`: a store gives its bytes to the current worker, a load and every command but
`end_for` leave them, and `end_for` clears them. The conflict an access reports is with the owner
its byte had before the access. So the detector raises no false alarm: the worker a report names
wrote the byte in the current region. It may miss a race, but it does not invent one. And it
misses none until a store is reported: up to then the owners are the last writers, so an access
that meets a byte last written by another worker, off the stack and out of the last command
object, reaches that byte with its conflict intact, if no earlier byte is reported first.

Workers are told apart by their owner byte only. The byte keeps `g_ct_curr_thread` modulo `256`
while `ct_on_access` compares it with the whole number, so a worker whose number does not fit
the byte is reported racing with itself.
-/

namespace Checkedthreads.LastWriter

open Pagetab OwnerMap Command Monitor

/-! ### The writers of every address -/

lemma toNat_toUChar (v : ℤ) : ((toUChar v).toNat : ℤ) = v % 256 := by
  have h : (v % 256).toNat < UInt8.size := by show _ < 256; omega
  rw [toUChar, UInt8.toNat_ofNat_of_lt h, Int.toNat_of_nonneg (by omega)]

-- a one-byte access reports a race exactly when its byte conflicts and is let through
lemma aOnAccessLoop_one (S base size : ℕ) (store : Bool) (g : Globals (ℕ → UInt8)) :
    (aOnAccessLoop S base size store [0] g).2 ≠ [] ↔
      Conflicts g.pagetab g.currThread base ∧ (ctSuppress S g base).2 = false := by
  simp only [aOnAccessLoop, Nat.add_zero, Conflicts]
  split_ifs <;> simp_all

-- the diagnostics of a loop are races
lemma exists_race_iff (S base size : ℕ) (store : Bool) (is : List ℕ) (g : Globals (ℕ → UInt8)) :
    (∃ d ∈ (aOnAccessLoop S base size store is g).2, d.IsRace) ↔
      (aOnAccessLoop S base size store is g).2 ≠ [] := by
  obtain ⟨_, _, _, _, _, h | ⟨_, _, _, _, h⟩⟩ := aOnAccessLoop_spec S base size store is g
  · simp [h.1]
  · simp [h, Diag.IsRace, Diag.isRace]

/-- Over the owner map: a worker's load of a byte it has just stored, which `ct_suppress` lets
through at the store and at the load, reports a race exactly when the worker's number does not
fit the owner byte. -/
lemma aOwn_store_load (g : Globals (ℕ → UInt8)) (addr : ℕ) (mem : ℕ → UInt8) (S S' : ℕ)
    (hact : g.active = true) (hmem : storedMagic mem addr ≠ magic)
    (hs : (ctSuppress S g addr).2 = false) (hs' : (ctSuppress S' g addr).2 = false)
    (hnr : (aHandle g ⟨.store, addr, 1, mem, S⟩).2 = []) :
    (∃ d ∈ (aHandle (aHandle g ⟨.store, addr, 1, mem, S⟩).1 ⟨.load, addr, 1, mem, S'⟩).2,
        d.IsRace) ↔ (g.currThread < 0 ∨ 256 ≤ g.currThread) ∧ g.currThread % 256 ≠ 0 := by
  have hst : aHandle g ⟨.store, addr, 1, mem, S⟩ = aOnAccessLoop S addr 1 true [0] g := by
    simp only [aHandle, aOnStore_of_not_cmd _ _ _ _ _ hmem, hact, if_true]; rfl
  rw [hst] at hnr ⊢
  -- the store's byte had no other owner: `ct_suppress` would have let its conflict through
  have hc : ¬ Conflicts g.pagetab g.currThread addr := fun hc =>
    (aOnAccessLoop_one S addr 1 true g).2 ⟨hc, hs⟩ hnr
  have h1 : (aOnAccessLoop S addr 1 true [0] g).1 =
      { g with pagetab := setOwner g.pagetab addr (toUChar g.currThread) } := by
    simp only [Conflicts] at hc
    simp only [aOnAccessLoop, Nat.add_zero, if_neg hc]; rfl
  have hl : aHandle (aOnAccessLoop S addr 1 true [0] g).1 ⟨.load, addr, 1, mem, S'⟩ =
      aOnAccessLoop S' addr 1 false [0] (aOnAccessLoop S addr 1 true [0] g).1 := by
    simp only [aHandle, h1, hact, if_true]; rfl
  rw [hl, exists_race_iff, aOnAccessLoop_one, h1, ctSuppress_pagetab, hs']
  simp only [Conflicts, setOwner, if_true, toNat_toUChar, and_true]
  omega

/-- **A worker races with itself when its number does not fit the owner byte.** In a region,
a worker stores one byte that `ct_suppress` lets through, and the store reports nothing. Its
load of that byte right after, also let through, reports a race exactly when
`g_ct_curr_thread`, its number plus one, lies outside `0..255` and is no multiple of `256`.
The owner byte keeps `g_ct_curr_thread` modulo `256`, and `ct_on_access` compares that byte
with the whole number. -/
theorem own_store_race_iff (g : Globals PT) (addr : ℕ) (mem : ℕ → UInt8) (S S' : ℕ)
    (hact : g.active = true) (hmem : storedMagic mem addr ≠ magic)
    (hs : (ctSuppress S g addr).2 = false) (hs' : (ctSuppress S' g addr).2 = false)
    (hnr : (handle g ⟨.store, addr, 1, mem, S⟩).2 = []) :
    (∃ d ∈ (handle (handle g ⟨.store, addr, 1, mem, S⟩).1 ⟨.load, addr, 1, mem, S'⟩).2,
        d.IsRace) ↔ (g.currThread < 0 ∨ 256 ≤ g.currThread) ∧ g.currThread % 256 ≠ 0 := by
  have h1 : (aHandle (g.map PT.ownerAt) ⟨.store, addr, 1, mem, S⟩).1 =
      (handle g ⟨.store, addr, 1, mem, S⟩).1.map PT.ownerAt := by rw [handle_refines]
  have h2 : (aHandle (g.map PT.ownerAt) ⟨.store, addr, 1, mem, S⟩).2 =
      (handle g ⟨.store, addr, 1, mem, S⟩).2 := by rw [handle_refines]
  rw [← h2] at hnr
  rw [← (Prod.ext_iff.1 (handle_refines _ _)).2, ← h1]
  exact aOwn_store_load (g.map PT.ownerAt) addr mem S S' hact hmem hs hs' hnr

-- worker `257` in a region, on a stack from `32768` up to `65536`
def worker257 : Globals PT :=
  { inRegion with currThread := 258, stackbot := 65536, stackend := 32768 }

-- worker `257` stores the heap byte `256`, below its stack, and reads it back
theorem worker257_races_itself :
    worker257.active = true ∧ storedMagic (fun _ => 0) 256 ≠ magic ∧
      (ctSuppress 32768 worker257 256).2 = false ∧ (ctSuppress 32768 worker257 256).2 = false ∧
      (handle worker257 ⟨.store, 256, 1, fun _ => 0, 32768⟩).2 = [] ∧
      ((∃ d ∈ (handle (handle worker257 ⟨.store, 256, 1, fun _ => 0, 32768⟩).1
          ⟨.load, 256, 1, fun _ => 0, 32768⟩).2, d.IsRace) ↔
        (worker257.currThread < 0 ∨ 256 ≤ worker257.currThread) ∧
          worker257.currThread % 256 ≠ 0) := by
  have hs : (ctSuppress 32768 worker257 256).2 = false := by decide
  have hnr : (handle worker257 ⟨.store, 256, 1, fun _ => 0, 32768⟩).2 = [] := by decide
  exact ⟨rfl, by decide, hs, hs, hnr, own_store_race_iff _ _ _ _ _ rfl (by decide) hs hs hnr⟩

/-! ### Conflicts are reported until a store is -/

end Checkedthreads.LastWriter
