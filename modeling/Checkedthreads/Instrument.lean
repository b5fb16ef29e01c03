import Mathlib.Data.List.Basic

/-!
The instrumentation pass `lk_instrument`, which Valgrind runs on every superblock before it
executes it.

The statements of the superblock are copied to the output block. Each memory access among them
becomes an event in the buffer `events`: an `Ir` for an instruction mark, a `Dr` for a load, a
`Dw` for a store, and a `Dm` for a store that merges with the load just before it. Flushing the
buffer turns its events, oldest first, into calls of `trace_load`, `trace_store` and
`trace_modify`; it is flushed when an event finds it full, before a side exit and at the end of
the block. The statements before the first `IMark`, the preamble, are copied as they are.

Of a statement, the model keeps what the pass reads: its tag, and the address atom and type of
an access, whether a CAS is a double one and whether an LL/SC stores.
-/

namespace Checkedthreads.Instrument

/-! ### IR -/

inductive IRType
  | i8 | i16 | i32 | i64 | i128 | f32 | f64 | d32 | d64 | d128 | f128 | v128 | v256
  deriving DecidableEq, Repr

def sizeofIRType : IRType → ℕ
  | .i8 => 1 | .i16 => 2 | .i32 => 4 | .i64 => 8 | .i128 => 16
  | .f32 => 4 | .f64 => 8 | .d32 => 4 | .d64 => 8 | .d128 => 16 | .f128 => 16
  | .v128 => 16 | .v256 => 32

inductive IRAtom
  | rdTmp (t : ℕ)
  | const (c : ℕ)
  deriving DecidableEq, Repr

inductive IRExpr
  | load (ty : IRType) (addr : IRAtom)
  | other (e : ℕ)
  deriving DecidableEq, Repr

/-- A statement, by its tag. A store keeps the type of its data, a CAS the type of `dataLo` and
whether `dataHi` is there, an LL/SC the type it loads or stores and whether it has `storedata`
(an SC). A tag the pass has no case for is `unhandled`. -/
inductive IRStmt
  | noOp
  | iMark (addr len : ℕ)
  | abiHint (h : ℕ)
  | put (p : ℕ)
  | putI (p : ℕ)
  | wrTmp (tmp : ℕ) (data : IRExpr)
  | store (addr : IRAtom) (ty : IRType)
  | cas (addr : IRAtom) (ty : IRType) (dataHi : Bool)
  | llsc (addr : IRAtom) (ty : IRType) (storedata : Bool)
  | dirty (d : ℕ)
  | mbe (m : ℕ)
  | exit (e : ℕ)
  | unhandled (tag : ℕ)
  deriving DecidableEq, Repr

def IRStmt.isIMark : IRStmt → Bool
  | .iMark .. => true
  | _ => false

/-- The instruction sizes of the guest architecture, which Valgrind's headers fix and
`addEvent_Ir` asserts on: `VG_MIN_INSTR_SZB`, `VG_MAX_INSTR_SZB` and `VG_CLREQ_SZB`, the length of
a client request. -/
structure InstrSizes where
  minInstrSzb : ℕ
  maxInstrSzb : ℕ
  clreqSzb : ℕ

def InstrSizes.accepts (sz : InstrSizes) (isize : ℕ) : Bool :=
  (decide (sz.minInstrSzb ≤ isize) && decide (isize ≤ sz.maxInstrSzb)) || sz.clreqSzb == isize

/-- The statements the main loop gets through: a tag it has a case for, and an `IMark` whose
length passes the assertion of `addEvent_Ir`. -/
def IRStmt.passes (sz : InstrSizes) : IRStmt → Bool
  | .iMark _ len => sz.accepts len
  | .unhandled _ => false
  | _ => true

inductive EventKind
  | ir | dr | dw | dm
  deriving DecidableEq, Repr

structure Event where
  ekind : EventKind
  addr : IRAtom
  size : ℕ
  deriving DecidableEq, Repr

def nEvents : ℕ := 4

-- `events[0 .. events_used)`, the outstanding events, oldest first
structure Events where
  list : List Event
  bound : list.length ≤ nEvents

/-- A statement of the output block: a copy of a statement of the input (`addStmtToIRSB` of it),
or a dirty call that `flushEvents` adds, of the helper named with the arguments `addr, size`. -/
inductive OutStmt
  | copy (s : IRStmt)
  | call (helperName : String) (addr : IRAtom) (size : ℕ)
  deriving DecidableEq, Repr

structure St where
  out : List OutStmt
  events : Events

def St.addStmt (st : St) (s : IRStmt) : St := { st with out := st.out ++ [.copy s] }

@[simp] lemma St.addStmt_out (st : St) (s : IRStmt) : (st.addStmt s).out = st.out ++ [.copy s] :=
  rfl

@[simp] lemma St.addStmt_events (st : St) (s : IRStmt) : (st.addStmt s).events = st.events := rfl

/-! ### The event buffer -/

def Event.call? (ev : Event) : Option OutStmt :=
  match ev.ekind with
  | .ir => none
  | .dr => some (.call "trace_load" ev.addr ev.size)
  | .dw => some (.call "trace_store" ev.addr ev.size)
  | .dm => some (.call "trace_modify" ev.addr ev.size)

def Events.empty : Events := ⟨[], Nat.zero_le _⟩

-- `flushEvents`: the calls of the outstanding events, in order; then none is outstanding
def flushEvents (st : St) : St := ⟨st.out ++ st.events.list.filterMap Event.call?, .empty⟩

@[simp] lemma flushEvents_out (st : St) :
    (flushEvents st).out = st.out ++ st.events.list.filterMap Event.call? := rfl

@[simp] lemma flushEvents_list (st : St) : (flushEvents st).events.list = [] := rfl

def flushIfFull (st : St) : St := if st.events.list.length = nEvents then flushEvents st else st

lemma length_flushIfFull (st : St) : (flushIfFull st).events.list.length < nEvents := by
  unfold flushIfFull
  split
  · simp [nEvents]
  · exact lt_of_le_of_ne st.events.bound ‹_›

/-- What `addEvent_Ir`, `addEvent_Dr` and `addEvent_Dw` do to append an event: flush a full
buffer, then `events[events_used++] = ev`. -/
def addEvent (st : St) (ev : Event) : St :=
  ⟨(flushIfFull st).out, ⟨(flushIfFull st).events.list ++ [ev], by
    rw [List.length_append, List.length_singleton]; exact length_flushIfFull st⟩⟩

/-- `addEvent_Ir`: it fails its `tl_assert` on a length that is neither an instruction's nor a
client request's. -/
def addEventIr (sz : InstrSizes) (st : St) (iaddr : IRAtom) (isize : ℕ) : Option St :=
  if sz.accepts isize then some (addEvent st ⟨.ir, iaddr, isize⟩) else none

def addEventDr (st : St) (daddr : IRAtom) (dsize : ℕ) : St := addEvent st ⟨.dr, daddr, dsize⟩

def mergesWithLast (evs : List Event) (daddr : IRAtom) (dsize : ℕ) : Bool :=
  match evs.getLast? with
  | some lastEvt => lastEvt.ekind == .dr && lastEvt.size == dsize && lastEvt.addr == daddr
  | none => false

lemma length_modifyLast (l : List Event) (f : Event → Event) :
    (l.dropLast ++ l.getLast?.toList.map f).length = l.length := by
  rcases l.eq_nil_or_concat with rfl | ⟨L, b, rfl⟩ <;> simp

def Events.setLastDm (es : Events) : Events :=
  ⟨es.list.dropLast ++ es.list.getLast?.toList.map fun e => { e with ekind := .dm },
    (length_modifyLast _ _).trans_le es.bound⟩

-- `addEvent_Dw`: a store merges with the load just before it into a modify, or is appended
def addEventDw (st : St) (daddr : IRAtom) (dsize : ℕ) : St :=
  if mergesWithLast st.events.list daddr dsize then { st with events := st.events.setLastDm }
  else addEvent st ⟨.dw, daddr, dsize⟩

/-! ### The pass -/

def casSize (ty : IRType) (dataHi : Bool) : ℕ :=
  if dataHi then sizeofIRType ty * 2 else sizeofIRType ty

/-- One turn of the main loop of `lk_instrument`, at a statement after the preamble: a null
statement and `Ist_NoOp` are skipped, and a tag without a case fails its `tl_assert`. -/
def instrumentStmt (sz : InstrSizes) (st : St) : Option IRStmt → Option St
  | none | some .noOp => some st
  | some (.abiHint h) => some (st.addStmt (.abiHint h))
  | some (.put p) => some (st.addStmt (.put p))
  | some (.putI p) => some (st.addStmt (.putI p))
  | some (.mbe m) => some (st.addStmt (.mbe m))
  | some (.iMark addr len) =>
    (addEventIr sz st (.const addr) len).map fun st => st.addStmt (.iMark addr len)
  | some (.wrTmp t data) =>
    let st := match data with
      | .load ty addr => addEventDr st addr (sizeofIRType ty)
      | .other _ => st
    some (st.addStmt (.wrTmp t data))
  | some (.store addr ty) => some ((addEventDw st addr (sizeofIRType ty)).addStmt (.store addr ty))
  | some (.dirty d) => some (st.addStmt (.dirty d))
  | some (.cas addr ty dataHi) =>
    let dataSize := casSize ty dataHi
    some ((addEventDw (addEventDr st addr dataSize) addr dataSize).addStmt (.cas addr ty dataHi))
  | some (.llsc addr ty storedata) =>
    let st := if storedata then addEventDw st addr (sizeofIRType ty)
      else addEventDr st addr (sizeofIRType ty)
    some (st.addStmt (.llsc addr ty storedata))
  | some (.exit e) => some ((flushEvents st).addStmt (.exit e))
  | some (.unhandled _) => none

def instrumentLoop (sz : InstrSizes) (st : St) : List (Option IRStmt) → Option St
  | [] => some st
  | s :: ss => (instrumentStmt sz st s).bind fun st => instrumentLoop sz st ss

/-- The loop that copies the preamble, the statements before the first `IMark`, and returns the
statements from it on. It reads the tag of each statement it meets: a null one fails. -/
def copyPreamble (st : St) : List (Option IRStmt) → Option (St × List (Option IRStmt))
  | [] => some (st, [])
  | none :: _ => none
  | some s :: ss => if s.isIMark then some (st, some s :: ss) else copyPreamble (st.addStmt s) ss

/-- `lk_instrument` on an architecture with instruction sizes `sz`, from the outstanding events
it finds: it fails where it panics on `gWordTy ≠ hWordTy`, fails an assertion or reads a null
statement. -/
def lkInstrument (sz : InstrSizes) (events : Events) (gWordTy hWordTy : IRType)
    (sbIn : List (Option IRStmt)) : Option St :=
  if gWordTy = hWordTy then
    (copyPreamble ⟨[], events⟩ sbIn).bind fun r =>
      (instrumentLoop sz { r.1 with events := .empty } r.2).map flushEvents
  else none

/-! ### What each part does -/

lemma addEvent_spec (st : St) (ev : Event) :
    ∃ l₁ l₂, st.events.list = l₁ ++ l₂ ∧
      (addEvent st ev).out = st.out ++ l₁.filterMap Event.call? ∧
      (addEvent st ev).events.list = l₂ ++ [ev] := by
  unfold addEvent flushIfFull
  split
  · exact ⟨_, [], (List.append_nil _).symm, rfl, rfl⟩
  · exact ⟨[], _, rfl, (List.append_nil _).symm, rfl⟩

lemma mergesWithLast_iff (evs : List Event) (daddr : IRAtom) (dsize : ℕ) :
    mergesWithLast evs daddr dsize = true ↔ evs.getLast? = some ⟨.dr, daddr, dsize⟩ := by
  unfold mergesWithLast
  cases evs.getLast? with
  | none => simp
  | some e =>
    rcases e with ⟨k, a, n⟩
    simp only [Bool.and_eq_true, beq_iff_eq, Option.some.injEq, Event.mk.injEq]
    tauto

lemma setLastDm_list {es : Events} {daddr : IRAtom} {dsize : ℕ}
    (h : es.list.getLast? = some ⟨.dr, daddr, dsize⟩) :
    es.list = es.list.dropLast ++ [⟨.dr, daddr, dsize⟩] ∧
      es.setLastDm.list = es.list.dropLast ++ [⟨.dm, daddr, dsize⟩] := by
  refine ⟨(List.dropLast_append_getLast? _ h).symm, ?_⟩
  simp [Events.setLastDm, h]

lemma addEventDw_addEventDr (st : St) (addr : IRAtom) (n : ℕ) :
    addEventDw (addEventDr st addr n) addr n = addEvent st ⟨.dm, addr, n⟩ := by
  have hl : (addEventDr st addr n).events.list.getLast? = some ⟨.dr, addr, n⟩ := by
    simp [addEventDr, addEvent]
  rw [addEventDw, if_pos ((mergesWithLast_iff _ _ _).2 hl)]
  simp [addEventDr, addEvent, Events.setLastDm]

end Checkedthreads.Instrument
