import Checkedthreads.Instrument

/-!
The output of `lk_instrument` in the terms the pass is documented in. After the preamble come the
kept statements in order, interleaved with one call per event of `merge E`. Each call stands after
the statement that made its event and before the next side exit.

The buffer of `N_EVENTS` events only decides where the calls stand. `addEvent_Dw` looks for the
load to merge with before it flushes, so a full buffer never parts a load from its store; a side
exit flushes, so no merge crosses one. The preamble is copied without a look: its accesses get no
call, and a null statement there is read.
-/

namespace Checkedthreads.Instrument

/-! ### The merged events -/

-- an entry of `E`: an event, or a side exit, which no merge crosses
inductive Item
  | ev (e : Event)
  | exit
  deriving DecidableEq, Repr

/-- The entries a statement adds to `E`: an `Ir` for an `IMark`, a `Dr` for a load and for an LL,
a `Dw` for a store and for an SC, a `Dr` then a `Dw` for a CAS, and an exit for a side exit. -/
def items : IRStmt → List Item
  | .iMark addr len => [.ev ⟨.ir, .const addr, len⟩]
  | .wrTmp _ (.load ty addr) => [.ev ⟨.dr, addr, sizeofIRType ty⟩]
  | .store addr ty => [.ev ⟨.dw, addr, sizeofIRType ty⟩]
  | .cas addr ty dataHi =>
    [.ev ⟨.dr, addr, casSize ty dataHi⟩, .ev ⟨.dw, addr, casSize ty dataHi⟩]
  | .llsc addr ty storedata => [.ev ⟨if storedata then .dw else .dr, addr, sizeofIRType ty⟩]
  | .exit _ => [.exit]
  | _ => []

def itemsOf (ss : List IRStmt) : List Item := ss.flatMap items

def Joins (r w : Event) : Prop :=
  r.ekind = .dr ∧ w.ekind = .dw ∧ w.size = r.size ∧ w.addr = r.addr

instance (r w : Event) : Decidable (Joins r w) := inferInstanceAs (Decidable (_ ∧ _ ∧ _ ∧ _))

/-- `merge E`: each `Dr` immediately followed by a `Dw` it joins becomes one `Dm`; exits go. -/
def merge : List Item → List Event
  | [] => []
  | .exit :: is => merge is
  | .ev r :: rest@(.ev w :: is) =>
    if Joins r w then ⟨.dm, r.addr, r.size⟩ :: merge is else r :: merge rest
  | .ev r :: is => r :: merge is

/-! ### The output, as documented -/

def beforeIMark (s : Option IRStmt) : Bool := !s.any IRStmt.isIMark

def preamble (sbIn : List (Option IRStmt)) : List (Option IRStmt) := sbIn.takeWhile beforeIMark

def afterPreamble (sbIn : List (Option IRStmt)) : List (Option IRStmt) :=
  sbIn.dropWhile beforeIMark

/-- Of the statements from the first `IMark` on, those the output keeps: all but the null ones
and `Ist_NoOp`. -/
def kept (ss : List (Option IRStmt)) : List IRStmt :=
  ss.filterMap fun
    | some .noOp => none
    | s => s

def entries (ss : List (Option IRStmt)) : List Item := itemsOf (kept ss)

def OutStmt.isCall : OutStmt → Bool
  | .call .. => true
  | .copy _ => false

def OutStmt.copy? : OutStmt → Option IRStmt
  | .copy s => some s
  | .call .. => none

def calls (out : List OutStmt) : List OutStmt := out.filter OutStmt.isCall

def copies (out : List OutStmt) : List IRStmt := out.filterMap OutStmt.copy?

def callsOf (evs : List Event) : List OutStmt := evs.filterMap Event.call?

def PlacedAt (p q : List OutStmt) : Prop :=
  calls p <+: callsOf (merge (itemsOf (copies p))) ∧
    ∀ e, q.head? = some (.copy (.exit e)) → calls p = callsOf (merge (itemsOf (copies p)))

/-- Every call of an output stands after the statement that made its event and before the first
side exit after that statement. -/
def Placed (out : List OutStmt) : Prop := ∀ p q, out = p ++ q → PlacedAt p q

/-! ### Merging, an entry at a time -/

lemma merge_ev_cons {r : Event} {is : List Item}
    (h : ∀ w, is.head? = some (.ev w) → ¬ Joins r w) : merge (.ev r :: is) = r :: merge is := by
  match is with
  | [] => simp [merge]
  | .exit :: is => simp [merge]
  | .ev w :: is => simp [merge, h w rfl]

lemma getLast?_cons_of_some {a x : Item} {l : List Item} (h : l.getLast? = some x) :
    (a :: l).getLast? = some x := by
  simp [List.getLast?_cons, h]

lemma merge_append (is js : List Item)
    (h : ∀ r w, is.getLast? = some (.ev r) → js.head? = some (.ev w) → ¬ Joins r w) :
    merge (is ++ js) = merge is ++ merge js := by
  induction is using merge.induct with
  | case1 => simp [merge]
  | case2 is ih =>
    simp only [List.cons_append, merge]
    exact ih fun r w hr => h r w (getLast?_cons_of_some hr)
  | case3 r w is hj ih =>
    simp only [List.cons_append, merge, if_pos hj]
    rw [ih fun r w hr => h r w (getLast?_cons_of_some (getLast?_cons_of_some hr))]
  | case4 r w is hj ih =>
    simp only [List.cons_append, merge, if_neg hj]
    rw [← List.cons_append, ih fun r w hr => h r w (getLast?_cons_of_some hr)]
  | case5 r is hne ih =>
    rw [List.cons_append, merge_ev_cons ?_, merge_ev_cons ?_,
      ih fun r w hr => h r w (getLast?_cons_of_some hr), List.cons_append]
    · exact fun w hw => (hne w _ (List.eq_cons_of_mem_head? hw)).elim
    · intro w hw
      cases is with
      | nil => exact h r w rfl hw
      | cons x is => exact (hne w is (by simpa using hw)).elim

lemma not_joins_of_ne_dw {r e : Event} (h : e.ekind ≠ .dw) : ¬ Joins r e := fun hj => h hj.2.1

lemma joins_dw_iff {r : Event} {a : IRAtom} {n : ℕ} : Joins r ⟨.dw, a, n⟩ ↔ r = ⟨.dr, a, n⟩ := by
  rcases r with ⟨k, a', n'⟩
  simp only [Joins, Event.mk.injEq, true_and]
  constructor <;> rintro ⟨rfl, rfl, rfl⟩ <;> exact ⟨rfl, rfl, rfl⟩

lemma merge_append_exit (is : List Item) : merge (is ++ [.exit]) = merge is := by
  rw [merge_append _ _ (by simp)]; simp [merge]

lemma merge_append_ev {is : List Item} {e : Event}
    (h : ∀ r, is.getLast? = some (.ev r) → ¬ Joins r e) :
    merge (is ++ [.ev e]) = merge is ++ [e] := by
  rw [merge_append _ _ fun r w hr hw => by cases hw; exact h r hr, merge_ev_cons (by simp)]
  simp [merge]

lemma merge_append_join {is : List Item} {r w : Event} (hj : Joins r w) :
    merge (is ++ [.ev r, .ev w]) = merge is ++ [⟨.dm, r.addr, r.size⟩] := by
  rw [merge_append _ _ fun x y _ hy => by cases hy; exact not_joins_of_ne_dw (by rw [hj.1]; simp)]
  simp [merge, hj]

/-! ### The output, a piece at a time -/

@[simp] lemma calls_append (p q : List OutStmt) : calls (p ++ q) = calls p ++ calls q :=
  List.filter_append _ _

@[simp] lemma copies_append (p q : List OutStmt) : copies (p ++ q) = copies p ++ copies q :=
  List.filterMap_append _ _ _

@[simp] lemma callsOf_append (l₁ l₂ : List Event) : callsOf (l₁ ++ l₂) = callsOf l₁ ++ callsOf l₂ :=
  List.filterMap_append _ _ _

@[simp] lemma itemsOf_append (a b : List IRStmt) : itemsOf (a ++ b) = itemsOf a ++ itemsOf b :=
  List.flatMap_append _ _ _

@[simp] lemma itemsOf_singleton (t : IRStmt) : itemsOf [t] = items t := List.flatMap_singleton _ _

@[simp] lemma calls_copy (s : IRStmt) : calls [.copy s] = [] := rfl

@[simp] lemma copies_copy (s : IRStmt) : copies [.copy s] = [s] := rfl

lemma isCall_of_mem_callsOf {x : OutStmt} {evs : List Event} (h : x ∈ callsOf evs) :
    x.isCall := by
  obtain ⟨e, -, he⟩ := List.mem_filterMap.1 h
  rcases e with ⟨k, a, n⟩
  cases k <;> simp only [Event.call?, Option.some.injEq, reduceCtorEq] at he <;>
    simp [← he, OutStmt.isCall]

lemma calls_copies_of_sub {a q : List OutStmt} {evs : List Event} (h : callsOf evs = a ++ q) :
    calls a = a ∧ copies a = [] := by
  have hc : ∀ x ∈ a, x.isCall := fun x hx => isCall_of_mem_callsOf (h ▸ List.mem_append_left q hx)
  refine ⟨List.filter_eq_self.2 hc, List.filterMap_eq_nil_iff.2 fun x hx => ?_⟩
  have := hc x hx
  cases x <;> simp_all [OutStmt.isCall, OutStmt.copy?]

@[simp] lemma calls_callsOf (evs : List Event) : calls (callsOf evs) = callsOf evs :=
  (calls_copies_of_sub (List.append_nil _).symm).1

@[simp] lemma copies_callsOf (evs : List Event) : copies (callsOf evs) = [] :=
  (calls_copies_of_sub (List.append_nil _).symm).2

lemma placed_nil : Placed [] := by
  intro p q h
  obtain ⟨rfl, rfl⟩ := List.append_eq_nil.1 h.symm
  simp [PlacedAt, calls, copies, itemsOf, merge, callsOf]

lemma Placed.append {out t : List OutStmt} (h : Placed out)
    (ht : ∀ a q, t = a ++ q → PlacedAt (out ++ a) q) : Placed (out ++ t) := by
  intro p q hpq
  rcases List.append_eq_append_iff.1 hpq with ⟨a, rfl, rfl⟩ | ⟨c, rfl, rfl⟩
  · exact ht a q rfl
  · refine ⟨(h p c rfl).1, fun e he => ?_⟩
    cases c with
    | nil => simpa using (ht [] t rfl).2 e (by simpa using he)
    | cons x c => exact (h p _ rfl).2 e (by simpa using he)

lemma Placed.append_callsOf {out : List OutStmt} {evs : List Event} (h : Placed out)
    (hp : calls out ++ callsOf evs <+: callsOf (merge (itemsOf (copies out)))) :
    Placed (out ++ callsOf evs) := by
  refine h.append fun a q haq => ⟨?_, fun e he => ?_⟩
  · obtain ⟨hc, hcp⟩ := calls_copies_of_sub haq
    rw [calls_append, copies_append, hc, hcp, List.append_nil]
    exact ((List.prefix_append_right_inj _).2 (haq ▸ List.prefix_append a q)).trans hp
  · have := isCall_of_mem_callsOf (haq ▸ List.mem_append_right a (List.mem_of_mem_head? he))
    simp [OutStmt.isCall] at this

lemma Placed.append_copy {out : List OutStmt} {s : IRStmt} (h : Placed out)
    (hp : calls out <+: callsOf (merge (itemsOf (copies out ++ [s]))))
    (hx : ∀ e, s = .exit e → calls out = callsOf (merge (itemsOf (copies out)))) :
    Placed (out ++ [.copy s]) := by
  refine h.append fun a q haq => ?_
  rcases a with _ | ⟨x, _ | ⟨y, a⟩⟩
  · subst haq
    refine ⟨by simpa using (h out [] (List.append_nil _).symm).1, fun e he => ?_⟩
    simpa using hx e (by simpa using he)
  · obtain ⟨rfl, rfl⟩ : x = .copy s ∧ q = [] := by simpa [eq_comm] using haq
    simpa [PlacedAt] using hp
  · simp at haq

/-! ### The loop invariant -/

/-- The outstanding events against the entries read so far: the merged events are the flushed
ones, `done`, then the outstanding ones; and the last outstanding event is a load exactly when the
last entry is that load. -/
structure Agree (is : List Item) (done evs : List Event) : Prop where
  merge_eq : merge is = done ++ evs
  last_dr : ∀ r, r.ekind = .dr → (evs.getLast? = some r ↔ is.getLast? = some (.ev r))

lemma agree_nil : Agree [] [] [] := ⟨by simp [merge], by simp⟩

lemma Agree.add {is xs : List Item} {done l₁ l₂ : List Event} {e : Event}
    (h : Agree is done (l₁ ++ l₂)) (hm : merge (is ++ xs) = merge is ++ [e])
    (hl : ∀ r, r.ekind = .dr → (e = r ↔ (is ++ xs).getLast? = some (.ev r))) :
    Agree (is ++ xs) (done ++ l₁) (l₂ ++ [e]) :=
  ⟨by rw [hm, h.merge_eq]; simp, fun r hr => by simpa using hl r hr⟩

lemma Agree.setLastDm {is : List Item} {done evs : List Event} {a : IRAtom} {n : ℕ}
    (h : Agree is done evs) (hl : evs.getLast? = some ⟨.dr, a, n⟩) :
    Agree (is ++ [.ev ⟨.dw, a, n⟩]) done (evs.dropLast ++ [⟨.dm, a, n⟩]) := by
  obtain ⟨L, rfl⟩ := List.getLast?_eq_some_iff.1 ((h.last_dr _ rfl).1 hl)
  have hL : merge L ++ [⟨.dr, a, n⟩] = done ++ evs.dropLast ++ [⟨.dr, a, n⟩] := by
    rw [← merge_append_ev fun r _ => not_joins_of_ne_dw (by simp), h.merge_eq, List.append_assoc,
      List.dropLast_append_getLast? _ hl]
  refine ⟨?_, fun r hr => ?_⟩
  · rw [List.append_assoc, List.singleton_append, merge_append_join (by simp [Joins]),
      List.append_cancel_right hL, List.append_assoc]
  · rw [List.getLast?_concat, List.getLast?_concat, Option.some.injEq, Option.some.injEq,
      Item.ev.injEq]
    constructor <;> rintro rfl <;> simp at hr

lemma Agree.exit {is : List Item} {done evs : List Event} (h : Agree is done evs) :
    Agree (is ++ [.exit]) (done ++ evs) [] :=
  ⟨by rw [merge_append_exit, h.merge_eq, List.append_nil], fun r _ => by simp⟩

lemma kept_append_some {ss : List (Option IRStmt)} {t : IRStmt} (ht : t ≠ .noOp) :
    kept (ss ++ [some t]) = kept ss ++ [t] := by
  cases t <;> simp_all [kept]

lemma entries_append_some (ss : List (Option IRStmt)) (t : IRStmt) :
    entries (ss ++ [some t]) = entries ss ++ items t := by
  rw [entries, kept, List.filterMap_append, itemsOf_append]
  congr 1
  cases t with
  | wrTmp _ data => cases data <;> rfl
  | _ => rfl

/-- The invariant of the main loop of `lk_instrument` after the statements `ss`, with `pre` the
copied preamble. -/
def Inv (pre : List OutStmt) (ss : List (Option IRStmt)) (st : St) : Prop :=
  ∃ body done, st.out = pre ++ body ∧ copies body = kept ss ∧ calls body = callsOf done ∧
    Agree (entries ss) done st.events.list ∧ Placed body

section Step

variable {sz : InstrSizes} {pre : List OutStmt} {ss : List (Option IRStmt)} {st : St}

lemma Inv.skip (h : Inv pre ss st) {s : Option IRStmt} (hs : s = none ∨ s = some .noOp) :
    Inv pre (ss ++ [s]) st := by
  have hk : kept (ss ++ [s]) = kept ss := by rcases hs with rfl | rfl <;> simp [kept]
  simpa only [Inv, entries, hk] using h

lemma Inv.flush_copy (h : Inv pre ss st) {st' : St} {t : IRStmt} (l₁ l₂ : List Event)
    (hl : st.events.list = l₁ ++ l₂) (hout : st'.out = st.out ++ callsOf l₁ ++ [.copy t])
    (ht : t ≠ .noOp) (hx : ∀ e, t = .exit e → l₂ = [])
    (hag : ∀ done, Agree (entries ss) done st.events.list →
      Agree (entries ss ++ items t) (done ++ l₁) st'.events.list) :
    Inv pre (ss ++ [some t]) st' := by
  obtain ⟨body, done, hst, hcp, hcl, hag0, hpl⟩ := h
  have hag' := hag done hag0
  have hm : merge (itemsOf (copies body)) = done ++ l₁ ++ l₂ := by
    rw [hcp, ← entries, hag0.merge_eq, hl, List.append_assoc]
  have hc : calls (body ++ callsOf l₁) = callsOf (done ++ l₁) := by simp [hcl]
  refine ⟨body ++ callsOf l₁ ++ [.copy t], done ++ l₁, by simp [hout, hst], by
    simp [hcp, kept_append_some ht], by simpa using hc, by rwa [entries_append_some], ?_⟩
  refine (hpl.append_callsOf ?_).append_copy ?_ fun e he => ?_
  · rw [hm, hcl]
    simpa only [callsOf_append] using List.prefix_append _ _
  · rw [hc, copies_append, copies_callsOf, List.append_nil, hcp, itemsOf_append, itemsOf_singleton,
      ← entries, hag'.merge_eq]
    simp only [callsOf_append]
    exact List.prefix_append _ _
  · rw [hc, copies_append, copies_callsOf, List.append_nil, hm, hx e he, List.append_nil]

lemma Inv.copy (h : Inv pre ss st) {t : IRStmt} (ht : t ≠ .noOp) (hi : items t = []) :
    Inv pre (ss ++ [some t]) (st.addStmt t) :=
  h.flush_copy [] st.events.list rfl (by simp [callsOf]) ht
    (fun e he => by simp [he, items] at hi) fun done hag => by simpa [hi] using hag

lemma Inv.push (h : Inv pre ss st) {t : IRStmt} {ev : Event} (ht : t ≠ .noOp)
    (hnx : ∀ e, t ≠ .exit e) (hm : merge (entries ss ++ items t) = merge (entries ss) ++ [ev])
    (hl : ∀ r, r.ekind = .dr → (ev = r ↔ (entries ss ++ items t).getLast? = some (.ev r))) :
    Inv pre (ss ++ [some t]) ((addEvent st ev).addStmt t) := by
  obtain ⟨l₁, l₂, hl12, hout, hev⟩ := addEvent_spec st ev
  exact h.flush_copy l₁ l₂ hl12 (by simp [hout, callsOf]) ht (fun e he => (hnx e he).elim)
    fun done hag => by rw [St.addStmt_events, hev]; exact (hl12 ▸ hag).add hm hl

lemma Inv.push_of_ne_dw (h : Inv pre ss st) {t : IRStmt} {ev : Event} (ht : t ≠ .noOp)
    (hnx : ∀ e, t ≠ .exit e) (hi : items t = [.ev ev]) (hd : ev.ekind ≠ .dw) :
    Inv pre (ss ++ [some t]) ((addEvent st ev).addStmt t) :=
  h.push ht hnx (by rw [hi]; exact merge_append_ev fun r _ => not_joins_of_ne_dw hd)
    fun r _ => by simp [hi]

lemma Inv.store (h : Inv pre ss st) {t : IRStmt} {a : IRAtom} {n : ℕ} (ht : t ≠ .noOp)
    (hnx : ∀ e, t ≠ .exit e) (hi : items t = [.ev ⟨.dw, a, n⟩]) :
    Inv pre (ss ++ [some t]) ((addEventDw st a n).addStmt t) := by
  obtain ⟨-, done, -, -, -, hag, -⟩ := id h
  unfold addEventDw
  split
  · rename_i hmw
    have hlast := (mergesWithLast_iff _ _ _).1 hmw
    exact h.flush_copy [] st.events.list rfl (by simp [callsOf]) ht (fun e he => (hnx e he).elim)
      fun done hag => by simpa [hi, (setLastDm_list hlast).2] using hag.setLastDm hlast
  · rename_i hmw
    have hno : ∀ r, (entries ss).getLast? = some (.ev r) → ¬ Joins r ⟨.dw, a, n⟩ :=
      fun r hr hj => hmw ((mergesWithLast_iff _ _ _).2
        ((hag.last_dr _ rfl).2 (by rw [← joins_dw_iff.1 hj]; exact hr)))
    exact h.push ht hnx (by rw [hi]; exact merge_append_ev hno) fun r _ => by simp [hi]

-- one turn of the main loop keeps the invariant, at a statement it gets through
lemma Inv.step (h : Inv pre ss st) (s : Option IRStmt) (hs : s.all (IRStmt.passes sz)) :
    ∃ st', instrumentStmt sz st s = some st' ∧ Inv pre (ss ++ [s]) st' := by
  rcases s with _ | t
  · exact ⟨st, rfl, h.skip (.inl rfl)⟩
  cases t with
  | noOp => exact ⟨st, rfl, h.skip (.inr rfl)⟩
  | iMark addr len =>
    exact ⟨_, by simp [instrumentStmt, addEventIr, show sz.accepts len from hs],
      h.push_of_ne_dw (by simp) (by simp) rfl (by simp)⟩
  | abiHint _ | put _ | putI _ | mbe _ | dirty _ => exact ⟨_, rfl, h.copy (by simp) rfl⟩
  | wrTmp tmp data =>
    cases data with
    | load ty addr => exact ⟨_, rfl, h.push_of_ne_dw (by simp) (by simp) rfl (by simp)⟩
    | other _ => exact ⟨_, rfl, h.copy (by simp) rfl⟩
  | store addr ty => exact ⟨_, rfl, h.store (by simp) (by simp) rfl⟩
  | cas addr ty dataHi =>
    refine ⟨_, rfl, ?_⟩
    rw [addEventDw_addEventDr]
    refine h.push (by simp) (by simp) (merge_append_join (by simp [Joins])) fun r hr => ?_
    simp only [items, List.getLast?_append, List.getLast?_cons_cons, List.getLast?_singleton,
      Option.or_some, Option.some.injEq, Item.ev.injEq]
    constructor <;> rintro rfl <;> simp at hr
  | llsc addr ty storedata =>
    cases storedata
    · exact ⟨_, rfl, h.push_of_ne_dw (by simp) (by simp) rfl (by simp)⟩
    · exact ⟨_, rfl, h.store (by simp) (by simp) rfl⟩
  | exit e =>
    exact ⟨_, rfl, h.flush_copy st.events.list [] (List.append_nil _).symm (by simp [callsOf])
      (by simp) (fun _ _ => rfl) fun done hag => by simpa [items] using hag.exit⟩
  | unhandled _ => simp [IRStmt.passes] at hs

lemma Inv.loop (rest : List (Option IRStmt)) (h : Inv pre ss st)
    (hh : ∀ s ∈ rest, s.all (IRStmt.passes sz)) :
    ∃ st', instrumentLoop sz st rest = some st' ∧ Inv pre (ss ++ rest) st' := by
  induction rest generalizing ss st with
  | nil => exact ⟨st, rfl, by simpa using h⟩
  | cons s rest ih =>
    obtain ⟨st₁, h1, hinv⟩ := h.step s (hh s (List.mem_cons_self _ _))
    obtain ⟨st', h2, hinv'⟩ := ih hinv fun s hs => hh s (List.mem_cons_of_mem _ hs)
    exact ⟨st', by simp [instrumentLoop, h1, h2], by simpa using hinv'⟩

end Step

lemma copyPreamble_eq (st : St) (sbIn : List (Option IRStmt))
    (h : ∀ s ∈ preamble sbIn, s.isSome) :
    copyPreamble st sbIn =
      some ({ st with out := st.out ++ (preamble sbIn).filterMap (Option.map .copy) },
        afterPreamble sbIn) := by
  induction sbIn generalizing st with
  | nil => simp [copyPreamble, preamble, afterPreamble]
  | cons s sbIn ih =>
    rcases s with _ | t
    · simp [preamble, beforeIMark] at h
    · by_cases hm : t.isIMark
      · simp [copyPreamble, hm, preamble, afterPreamble, beforeIMark]
      · simp only [preamble, afterPreamble, beforeIMark, Option.any_some, hm, Bool.not_false,
          List.takeWhile_cons_of_pos, List.dropWhile_cons_of_pos, List.mem_cons,
          forall_eq_or_imp, copyPreamble, Bool.false_eq_true, ↓reduceIte] at h ⊢
        rw [ih _ h.2]
        simp [preamble, afterPreamble]

/-- **The output of `lk_instrument`.** For equal guest and host word types, any outstanding
events, and a superblock with no null statement before its first `IMark` and, from it on, tags
the pass handles and `IMark`s whose length `addEvent_Ir` accepts, the pass returns a block: the
preamble, copied, then statements `body` that interleave the kept statements, in order, with the
calls of `merge E`, in order, each placed after the statement that made its event and before the
first side exit after it. -/
theorem lkInstrument_interleaves (sz : InstrSizes) (events : Events) (ty : IRType)
    (sbIn : List (Option IRStmt)) (hpre : ∀ s ∈ preamble sbIn, s.isSome)
    (hh : ∀ s ∈ afterPreamble sbIn, s.all (IRStmt.passes sz)) :
    ∃ st body, lkInstrument sz events ty ty sbIn = some st ∧
      st.out = (preamble sbIn).filterMap (Option.map .copy) ++ body ∧
      copies body = kept (afterPreamble sbIn) ∧
      calls body = callsOf (merge (entries (afterPreamble sbIn))) ∧ Placed body := by
  have h0 : Inv ((preamble sbIn).filterMap (Option.map .copy)) []
      ⟨(preamble sbIn).filterMap (Option.map .copy), .empty⟩ :=
    ⟨[], [], by simp, rfl, rfl, agree_nil, placed_nil⟩
  obtain ⟨st, hloop, body, done, hout, hcp, hcl, hag, hpl⟩ := h0.loop (afterPreamble sbIn) hh
  rw [List.nil_append] at hcp hag
  refine ⟨flushEvents st, body ++ callsOf st.events.list, ?_, by simp [hout, callsOf], by
    simp [hcp], by simp [hcl, hag.merge_eq], hpl.append_callsOf ?_⟩
  · simp [lkInstrument, copyPreamble_eq _ _ hpre, hloop]
  · exact ⟨[], by rw [List.append_nil, hcl, hcp, ← entries, hag.merge_eq, callsOf_append]⟩

/-- The instruction sizes of amd64: instructions of 1 to 16 bytes, client requests of 19. -/
def amd64 : InstrSizes := ⟨1, 16, 19⟩

def addToMemory : List (Option IRStmt) :=
  [some (.put 0), some (.iMark 4096 3), some (.wrTmp 1 (.load .i32 (.rdTmp 0))), none,
    some (.store (.rdTmp 0) .i32), some (.exit 0), some (.iMark 4099 2),
    some (.store (.const 64) .i8)]

theorem addToMemory_interleaves :
    (∀ s ∈ preamble addToMemory, s.isSome) ∧
      (∀ s ∈ afterPreamble addToMemory, s.all (IRStmt.passes amd64)) ∧
      ∃ st body, lkInstrument amd64 .empty .i64 .i64 addToMemory = some st ∧
        st.out = (preamble addToMemory).filterMap (Option.map .copy) ++ body ∧
        copies body = kept (afterPreamble addToMemory) ∧
        calls body = callsOf (merge (entries (afterPreamble addToMemory))) ∧ Placed body :=
  ⟨by decide, by decide,
    lkInstrument_interleaves amd64 .empty .i64 addToMemory (by decide) (by decide)⟩

def preambleStore : List (Option IRStmt) := [some (.store (.rdTmp 0) .i32), some (.iMark 0 4)]

/-- The store before the first `IMark` gets no call: the output calls nothing, while the events of
all the statements merge to a `Dw`, a call of `trace_store`. -/
theorem preamble_store_uncalled :
    (lkInstrument amd64 .empty .i64 .i64 preambleStore).map (fun st => calls st.out) = some [] ∧
      callsOf (merge (entries preambleStore)) = [.call "trace_store" (.rdTmp 0) 4] := by
  refine ⟨by decide, ?_⟩
  simp [preambleStore, entries, kept, itemsOf, items, merge, Joins, callsOf, Event.call?,
    sizeofIRType]

/-! ### When the pass fails -/

variable {sz : InstrSizes}

lemma isSome_instrumentStmt (st : St) (s : Option IRStmt) :
    (instrumentStmt sz st s).isSome = s.all (IRStmt.passes sz) := by
  rcases s with _ | t
  · rfl
  · cases t <;> try rfl
    simp only [instrumentStmt, addEventIr, Option.all_some, IRStmt.passes]
    split <;> simp_all

lemma instrumentLoop_eq_none_iff (st : St) (rest : List (Option IRStmt)) :
    instrumentLoop sz st rest = none ↔ ∃ s ∈ rest, s.all (IRStmt.passes sz) = false := by
  induction rest generalizing st with
  | nil => simp [instrumentLoop]
  | cons s rest ih =>
    have hs : (instrumentStmt sz st s).isSome = _ := isSome_instrumentStmt st s
    cases h : instrumentStmt sz st s with
    | none => simp only [h, Option.isSome_none] at hs; simp [instrumentLoop, h, ← hs]
    | some st' => simp only [h, Option.isSome_some] at hs; simp [instrumentLoop, h, ih, ← hs]

lemma copyPreamble_eq_none_iff (st : St) (sbIn : List (Option IRStmt)) :
    copyPreamble st sbIn = none ↔ none ∈ preamble sbIn := by
  induction sbIn generalizing st with
  | nil => simp [copyPreamble, preamble]
  | cons s sbIn ih =>
    rcases s with _ | t
    · simp [copyPreamble, preamble, beforeIMark]
    · by_cases hm : t.isIMark
      · simp [copyPreamble, preamble, beforeIMark, hm]
      · simpa [copyPreamble, preamble, beforeIMark, hm] using ih (st.addStmt t)

/-- **When `lk_instrument` fails**: exactly when the word types differ, a statement before the
first `IMark` is null, or a statement from it on has a tag the pass has no case for or is an
`IMark` whose length `addEvent_Ir` asserts against. -/
theorem lkInstrument_eq_none_iff (sz : InstrSizes) (events : Events) (gWordTy hWordTy : IRType)
    (sbIn : List (Option IRStmt)) :
    lkInstrument sz events gWordTy hWordTy sbIn = none ↔ gWordTy ≠ hWordTy ∨
      none ∈ preamble sbIn ∨ ∃ s ∈ afterPreamble sbIn, s.all (IRStmt.passes sz) = false := by
  unfold lkInstrument
  split_ifs with hg
  · by_cases hn : none ∈ preamble sbIn
    · simp [(copyPreamble_eq_none_iff _ _).2 hn, hn]
    · have hpre : ∀ s ∈ preamble sbIn, s.isSome := fun s hs => by
        cases s; exacts [(hn hs).elim, rfl]
      simp [copyPreamble_eq _ _ hpre, hg, hn, instrumentLoop_eq_none_iff]
  · simp [hg]

example : lkInstrument amd64 .empty .i64 .i64 [some (.iMark 0 0)] = none := rfl

end Checkedthreads.Instrument
