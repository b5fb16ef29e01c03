import Checkedthreads.Command

/-!
The race monitor: what the detector does on every load, store and modify of the client.

`ct_on_access` walks the bytes of an access. For each it looks up the owner through
`ct_get_page`; a byte owned by another worker is a conflict unless `ct_suppress` ignores it
(the worker's stack, or the last command object). The first conflict that is not ignored is
reported, and the loop stops there: the `break` comes before the owner update, so on a store
neither that byte nor the ones after it change owner. `ct_on_store` first hands a store whose
first word holds `MAGIC` to `ct_process_command`.

The monitor runs over the page table. Over the owner map the table stands for
(`OwnerMap.PT.ownerAt`) the same code reads as a second monitor, `aHandle`, which knows nothing
of pages; `run_refines` says that the two print the same thing on every run and hold the same
owners after it.
-/

namespace Checkedthreads.Monitor

open Pagetab OwnerMap Command

variable {σ : Type}

/-! ### The monitor over the page table -/

/-- `ct_suppress(addr)`: whether a conflict on byte `p` is ignored, with the new
`g_ct_stackend`. Below `g_ct_stackend` it re-reads `ct_stack_end()`, here `stackEnd`, in case
the stack grew, and tries the stack again. -/
def ctSuppress (stackEnd : ℕ) (g : Globals σ) (p : ℕ) : ℕ × Bool :=
  let onStack (se : ℕ) : Bool := decide (se ≤ p ∧ p < g.stackbot)
  let onCmd : Bool := decide (g.lastCmd ≤ p ∧ p < g.lastCmd + ctCmdSize)
  if onStack g.stackend then (g.stackend, true)
  else if p < g.stackend then (stackEnd, onStack stackEnd || onCmd)
  else (g.stackend, onCmd)

-- `(unsigned char)v`
def toUChar (v : ℤ) : UInt8 := UInt8.ofNat (v % 256).toNat

-- `if(store) page->owning_thread[ix] = v`, on the table and page `ct_get_page` returned
def storeOwner (store : Bool) (r : (p : PT) × p.Page) (ix : ℕ) (v : UInt8) : PT :=
  if store then r.1.setOwningThread r.2 ix v else r.1

/-- The loop of `ct_on_access` over the offsets `is` of the access `[base, base + size)`.
The first conflict `ct_suppress` lets through is reported and ends the loop, before the owner
of its byte is updated. -/
def onAccessLoop (stackEnd base size : ℕ) (store : Bool) :
    List ℕ → Globals PT → Globals PT × List Diag
  | [], g => (g, [])
  | i :: is, g =>
    let addr := base + i
    let r := g.pagetab.getPage addr
    let ix := byteInPage addr
    let owner : ℤ := (r.1.owningThread r.2 ix).toNat
    let pt := storeOwner store r ix (toUChar g.currThread)
    if owner ≠ 0 ∧ owner ≠ g.currThread then
      let s := ctSuppress stackEnd g addr
      if s.2 then onAccessLoop stackEnd base size store is { g with pagetab := pt, stackend := s.1 }
      else ({ g with pagetab := r.1, stackend := s.1 },
        [.race (g.currThread - 1) addr base size (owner - 1)])
    else onAccessLoop stackEnd base size store is { g with pagetab := pt }

-- `ct_on_access(base, size, store)`
def ctOnAccess (stackEnd : ℕ) (g : Globals PT) (base size : ℕ) (store : Bool) :
    Globals PT × List Diag :=
  onAccessLoop stackEnd base size store (List.range size) g

-- the first `if` of `ct_on_store`: a store whose first word holds `MAGIC` is a command
def onStoreCommand (clear : σ → σ) (mem : ℕ → UInt8) (stackEnd : ℕ) (g : Globals σ)
    (addr : ℕ) : Globals σ × List Diag :=
  if storedMagic mem addr = magic then ctProcessCommand clear mem stackEnd g addr else (g, [])

/-- `ct_on_store(addr, size)`: a store whose first word holds `MAGIC` is first a command; then,
in a region, an access. -/
def ctOnStore (mem : ℕ → UInt8) (stackEnd : ℕ) (g : Globals PT) (addr size : ℕ) :
    Globals PT × List Diag :=
  let c := onStoreCommand PT.clear mem stackEnd g addr
  if c.1.active then
    let a := ctOnAccess stackEnd c.1 addr size true
    (a.1, c.2 ++ a.2)
  else c

-- `trace_load(addr, size)`
def traceLoad (stackEnd : ℕ) (g : Globals PT) (addr size : ℕ) : Globals PT × List Diag :=
  if g.active then ctOnAccess stackEnd g addr size false else (g, [])

-- `trace_store(addr, size)`
def traceStore (mem : ℕ → UInt8) (stackEnd : ℕ) (g : Globals PT) (addr size : ℕ) :
    Globals PT × List Diag :=
  ctOnStore mem stackEnd g addr size

-- `trace_modify(addr, size)`
def traceModify (mem : ℕ → UInt8) (stackEnd : ℕ) (g : Globals PT) (addr size : ℕ) :
    Globals PT × List Diag :=
  ctOnStore mem stackEnd g addr size

inductive Kind
  | load | store | modify
  deriving DecidableEq, Repr

/-- One call of a helper, `trace_load`, `trace_store` or `trace_modify`, with what the host
holds while it runs: the client's memory, and what `ct_stack_end()` returns for the running
thread. -/
structure Event where
  kind : Kind
  addr : ℕ
  size : ℕ
  mem : ℕ → UInt8
  stackEnd : ℕ

def handle (g : Globals PT) (e : Event) : Globals PT × List Diag :=
  match e.kind with
  | .load => traceLoad e.stackEnd g e.addr e.size
  | .store => traceStore e.mem e.stackEnd g e.addr e.size
  | .modify => traceModify e.mem e.stackEnd g e.addr e.size

/-- A run: the globals at its end, and what each event printed. -/
def run (g : Globals PT) : List Event → Globals PT × List (List Diag)
  | [] => (g, [])
  | e :: es => ((run (handle g e).1 es).1, (handle g e).2 :: (run (handle g e).1 es).2)

/-! ### The monitor over the owner map -/

/-- The owner map after a store of `v` through `ct_get_page(a)`: every address with the low
32 bits of `a` gets `v`. -/
def setOwner (f : ℕ → UInt8) (a : ℕ) (v : UInt8) (b : ℕ) : UInt8 :=
  if uint b = uint a then v else f b

-- `if(store)` the owner update, on the owner map
def aStoreOwner (store : Bool) (f : ℕ → UInt8) (a : ℕ) (v : UInt8) : ℕ → UInt8 :=
  if store then setOwner f a v else f

-- the loop of `ct_on_access` over the owner map
def aOnAccessLoop (stackEnd base size : ℕ) (store : Bool) :
    List ℕ → Globals (ℕ → UInt8) → Globals (ℕ → UInt8) × List Diag
  | [], g => (g, [])
  | i :: is, g =>
    let addr := base + i
    let owner : ℤ := (g.pagetab addr).toNat
    let f := aStoreOwner store g.pagetab addr (toUChar g.currThread)
    if owner ≠ 0 ∧ owner ≠ g.currThread then
      let s := ctSuppress stackEnd g addr
      if s.2 then aOnAccessLoop stackEnd base size store is { g with pagetab := f, stackend := s.1 }
      else ({ g with stackend := s.1 }, [.race (g.currThread - 1) addr base size (owner - 1)])
    else aOnAccessLoop stackEnd base size store is { g with pagetab := f }

-- `ct_clear_pagetab` on the owner map
def aClear (_ : ℕ → UInt8) (_ : ℕ) : UInt8 := 0

-- `ct_on_store` over the owner map
def aOnStore (mem : ℕ → UInt8) (stackEnd : ℕ) (g : Globals (ℕ → UInt8)) (addr size : ℕ) :
    Globals (ℕ → UInt8) × List Diag :=
  let c := onStoreCommand aClear mem stackEnd g addr
  if c.1.active then
    let a := aOnAccessLoop stackEnd addr size true (List.range size) c.1
    (a.1, c.2 ++ a.2)
  else c

-- one event over the owner map
def aHandle (g : Globals (ℕ → UInt8)) (e : Event) : Globals (ℕ → UInt8) × List Diag :=
  match e.kind with
  | .load =>
    if g.active then aOnAccessLoop e.stackEnd e.addr e.size false (List.range e.size) g
    else (g, [])
  | .store | .modify => aOnStore e.mem e.stackEnd g e.addr e.size

-- a run over the owner map
def aRun (g : Globals (ℕ → UInt8)) : List Event → Globals (ℕ → UInt8) × List (List Diag)
  | [] => (g, [])
  | e :: es => ((aRun (aHandle g e).1 es).1, (aHandle g e).2 :: (aRun (aHandle g e).1 es).2)

/-! ### The page table refines the owner map -/

@[simp] lemma ctSuppress_map {τ : Type} (f : σ → τ) (stackEnd : ℕ) (g : Globals σ) (p : ℕ) :
    ctSuppress stackEnd (g.map f) p = ctSuppress stackEnd g p := rfl

@[simp] lemma map_pagetab {τ : Type} (f : σ → τ) (g : Globals σ) : (g.map f).pagetab = f g.pagetab :=
  rfl

@[simp] lemma map_active {τ : Type} (f : σ → τ) (g : Globals σ) : (g.map f).active = g.active :=
  rfl

@[simp] lemma map_currThread {τ : Type} (f : σ → τ) (g : Globals σ) :
    (g.map f).currThread = g.currThread := rfl

@[simp] lemma map_lastCmd {τ : Type} (f : σ → τ) (g : Globals σ) :
    (g.map f).lastCmd = g.lastCmd := rfl

lemma ownerAt_storeOwner (store : Bool) (p : PT) (a : ℕ) (v : UInt8) :
    (storeOwner store (p.getPage a) (byteInPage a) v).ownerAt = aStoreOwner store p.ownerAt a v := by
  cases store
  · exact PT.ownerAt_getPage p a
  · funext b; exact PT.ownerAt_setOwningThread_getPage p a v b

lemma onAccessLoop_refines (stackEnd base size : ℕ) (store : Bool) (is : List ℕ)
    (g : Globals PT) :
    aOnAccessLoop stackEnd base size store is (g.map PT.ownerAt) =
      ((onAccessLoop stackEnd base size store is g).1.map PT.ownerAt,
        (onAccessLoop stackEnd base size store is g).2) := by
  induction is generalizing g with
  | nil => rfl
  | cons i is ih =>
    have ho := PT.owningThread_getPage g.pagetab (base + i)
    simp only [onAccessLoop, aOnAccessLoop, map_pagetab, map_currThread, ctSuppress_map, ho,
      ← ownerAt_storeOwner]
    split_ifs
    · rw [← ih]; rfl
    · simp [Globals.map]
    · rw [← ih]; rfl

lemma aClear_ownerAt (p : PT) : p.clear.ownerAt = aClear p.ownerAt := PT.ownerAt_clear p

lemma onStoreCommand_refines (mem : ℕ → UInt8) (stackEnd : ℕ) (g : Globals PT) (addr : ℕ) :
    onStoreCommand aClear mem stackEnd (g.map PT.ownerAt) addr =
      ((onStoreCommand PT.clear mem stackEnd g addr).1.map PT.ownerAt,
        (onStoreCommand PT.clear mem stackEnd g addr).2) := by
  unfold onStoreCommand
  split_ifs
  · exact ctProcessCommand_map PT.ownerAt aClear_ownerAt mem stackEnd g addr
  · rfl

lemma aOnStore_refines (mem : ℕ → UInt8) (stackEnd : ℕ) (g : Globals PT) (addr size : ℕ) :
    aOnStore mem stackEnd (g.map PT.ownerAt) addr size =
      ((ctOnStore mem stackEnd g addr size).1.map PT.ownerAt,
        (ctOnStore mem stackEnd g addr size).2) := by
  rw [aOnStore, ctOnStore, onStoreCommand_refines]
  dsimp only
  rw [map_active]
  split
  · rw [ctOnAccess, onAccessLoop_refines]
  · rfl

lemma handle_refines (g : Globals PT) (e : Event) :
    aHandle (g.map PT.ownerAt) e = ((handle g e).1.map PT.ownerAt, (handle g e).2) := by
  cases hk : e.kind
  · simp only [aHandle, handle, hk, traceLoad, map_active]
    split
    · rw [ctOnAccess, onAccessLoop_refines]
    · rfl
  · simp only [aHandle, handle, hk, traceStore, aOnStore_refines]
  · simp only [aHandle, handle, hk, traceModify, aOnStore_refines]

lemma run_map_eq (g : Globals PT) (es : List Event) :
    (run g es).1.map PT.ownerAt = (aRun (g.map PT.ownerAt) es).1 := by
  induction es generalizing g with
  | nil => rfl
  | cons e es ih => simp [aRun, run, handle_refines, ih]

lemma run_diags_eq (g : Globals PT) (es : List Event) :
    (run g es).2 = (aRun (g.map PT.ownerAt) es).2 := by
  induction es generalizing g with
  | nil => rfl
  | cons e es ih => simp [aRun, run, handle_refines, ih]

/-- **The page table refines the owner map.** On every run, the detector over its page table
prints what the detector over the owner map prints, and ends with the owners of that map. -/
theorem run_refines (g : Globals PT) (es : List Event) :
    aRun (g.map PT.ownerAt) es = ((run g es).1.map PT.ownerAt, (run g es).2) := by
  rw [run_map_eq, run_diags_eq]

end Checkedthreads.Monitor
