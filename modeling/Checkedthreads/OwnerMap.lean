import Checkedthreads.Lifetime

/-!
The page table as a map from addresses to owners.

Following the slots without allocating gives, for every address, the byte of its page, or `0`
where no page was allocated. `ct_get_page` leaves this map as it is; a store into the byte it
returns changes the map at every address whose low 32 bits are those of the address stored
to; `ct_clear_pagetab` makes it `0` everywhere. The table is therefore a total map keyed by
the low 32 bits of an address, the part of it the `(UInt)` cast of the index macros keeps.

The detector only ever holds a well-formed table, so its page table is `PT`, a table that some
shape describes. The operations the detector performs on it are defined there and cannot fail.
-/

namespace Checkedthreads.AllocLists

open Pagetab

/-- The page that holds the owner of `a`, following the slots without allocating. -/
def lookup (m : Mem) (a : ℕ) : Option ℕ := do
  let i ← m.l3.slots (l2Pagetab a)
  let t2 ← m.heap.tabAt .l2 i
  let j ← t2.slots (l1Pagetab a)
  let t1 ← m.heap.tabAt .l1 j
  t1.slots (page a)

/-- The owner the table records for `a`: `0` where no page was allocated. -/
def ownerAt (m : Mem) (a : ℕ) : UInt8 := ownerIn m.heap (lookup m a) a

variable {m : Mem} {s : Shape}

lemma Rep.lookup_eq (r : Rep m s) (a : ℕ) : lookup m a = s.path a := by
  simp only [lookup, Shape.path, Shape.l1Path, r.l3.slots, Option.bind_eq_bind]
  cases hi : s.l3.lookup (l2Pagetab a) with
  | none => rfl
  | some i =>
    obtain ⟨t2, ht2, tr2⟩ := r.tabs .l2 i (mem_of_lookup hi)
    simp only [Option.some_bind, ht2, tr2.slots, Shape.entries]
    cases hj : (s.l2 i).lookup (l1Pagetab a) with
    | none => rfl
    | some j =>
      obtain ⟨t1, ht1, tr1⟩ := r.tabs .l1 j (Shape.mem_l1s (mem_of_lookup hi) (mem_of_lookup hj))
      simp [ht1, tr1.slots, Shape.entries]

lemma Rep.ownerAt_eq (r : Rep m s) : ownerAt m = content m.heap s := by
  funext a
  simp only [ownerAt, content, r.lookup_eq]

/-! ### One page per slot path -/

lemma lookup_inj {es : List (ℕ × ℕ)} (nd : (es.map Prod.snd).Nodup) {x y c : ℕ}
    (hx : es.lookup x = some c) (hy : es.lookup y = some c) : x = y :=
  congrArg Prod.fst (List.inj_on_of_nodup_map nd (lookup_mem hx) (lookup_mem hy) rfl)

namespace Shape

/-- Two addresses whose paths end at one page agree on the slots of their paths: each node
hangs under one parent, in one slot. -/
lemma path_inj {s : Shape} (nd : s.ids.Nodup) {a b q : ℕ} (ha : s.path a = some q)
    (hb : s.path b = some q) : l1Pagetab a = l1Pagetab b ∧ page a = page b := by
  obtain ⟨j, hja, hqa⟩ := Option.bind_eq_some.1 ha
  obtain ⟨j', hjb, hqb⟩ := Option.bind_eq_some.1 hb
  obtain ⟨i, hia, hja⟩ := Option.bind_eq_some.1 hja
  obtain ⟨i', hib, hjb⟩ := Option.bind_eq_some.1 hjb
  have hi := mem_of_lookup hia
  have hj := mem_of_lookup hja
  have hj' := mem_of_lookup hjb
  obtain rfl : i = i' := eq_of_mem_flatMap (F := fun i => s.under i ++ [i]) nd hi
    (mem_of_lookup hib)
    (List.mem_append_left _ ((s.pages_sublist hj).subset (mem_of_lookup hqa)))
    (List.mem_append_left _ ((s.pages_sublist hj').subset (mem_of_lookup hqb)))
  have ndu := nd.sublist (s.under_sublist hi)
  obtain rfl : j = j' := eq_of_mem_flatMap (F := fun j => s.pages j ++ [j]) ndu hj hj'
    (List.mem_append_left _ (mem_of_lookup hqa)) (List.mem_append_left _ (mem_of_lookup hqb))
  exact ⟨lookup_inj (ndu.sublist (sublist_flatMap_snoc _ _)) hja hjb,
    lookup_inj (ndu.sublist (s.pages_sublist hj)) hqa hqb⟩

lemma path_congr (s : Shape) {a b : ℕ} (h1 : l1Pagetab a = l1Pagetab b)
    (h0 : page a = page b) : s.path a = s.path b := by
  simp [path, l1Path, l2Pagetab_eq, h1, h0]

end Shape

-- the slots and the byte of an address are its low 32 bits
lemma slices_eq_iff {a b : ℕ} :
    (l1Pagetab a = l1Pagetab b ∧ page a = page b) ∧ byteInPage a = byteInPage b ↔
      uint a = uint b := by
  simp only [l1Pagetab_eq, page_eq, byteInPage_eq, uint]
  omega

/-! ### Storing into a page -/

-- `page->owning_thread[ix] = v`, with `pg` the page at `q`
def setOwner (h : Heap) (q : ℕ) (pg : CtPage) (ix : ℕ) (v : UInt8) : Heap :=
  h.write q (.page { pg with owningThread := Function.update pg.owningThread ix v })

lemma pageAt_node {h : Heap} {q : ℕ} {pg : CtPage} (hq : h.pageAt q = some pg) :
    h.node q = some (.page pg) := by
  unfold Heap.pageAt at hq; split at hq <;> simp_all

lemma setOwner_node {h : Heap} {q : ℕ} {pg : CtPage} {ix : ℕ} {v : UInt8} {i : ℕ}
    (hi : i ≠ q) : (setOwner h q pg ix v).node i = h.node i := by
  simp [setOwner, Heap.write_node, hi]

-- a store into a page keeps the invariant: it changes neither a link nor a slot
lemma Rep.setOwner (r : Rep m s) {q : ℕ} {pg : CtPage} (hq : m.heap.pageAt q = some pg)
    (ix : ℕ) (v : UInt8) : Rep ⟨AllocLists.setOwner m.heap q pg ix v, m.l3⟩ s := by
  have hn := pageAt_node hq
  have keep : ∀ k i, ((AllocLists.setOwner m.heap q pg ix v).node i).bind (Node.prev k) =
      (m.heap.node i).bind (Node.prev k) := write_prev hn fun k => by cases k <;> rfl
  have ne : ∀ {k i t}, m.heap.tabAt k i = some t → i ≠ q := by
    rintro k i t ht rfl
    rw [tabAt_node ht] at hn
    cases k <;> simp [Node.ofTab] at hn
  refine ⟨r.l3.congr fun i _ => keep _ i, fun k i hi => ?_, r.nodup, fun k => ?_, fun k hk => ?_⟩
  · obtain ⟨t, ht, tr⟩ := r.tabs k i hi
    exact ⟨t, (tabAt_congr (setOwner_node (ne ht))).trans ht, tr.congr fun i _ => keep _ i⟩
  · rw [← r.live k]
    by_cases hk : k = q
    · subst hk; simp [AllocLists.setOwner, Heap.write_node, hn]
    · rw [setOwner_node hk]
  · rw [setOwner_node fun e => by rw [← e, r.fresh k hk] at hn; cases hn]
    exact r.fresh k hk

lemma content_setOwner {q : ℕ} {pg : CtPage} (hq : m.heap.pageAt q = some pg) (ix : ℕ)
    (v : UInt8) (b : ℕ) :
    content (setOwner m.heap q pg ix v) s b =
      if s.path b = some q ∧ byteInPage b = ix then v else content m.heap s b := by
  simp only [content, ownerIn]
  cases hb : s.path b with
  | none => simp
  | some q' =>
    by_cases h : q' = q
    · subst h
      by_cases hx : byteInPage b = ix <;>
        simp [setOwner, Heap.pageAt, Heap.write_node, pageAt_node hq, hx, Function.update_apply]
    · have : (setOwner m.heap q pg ix v).pageAt q' = m.heap.pageAt q' := by
        simp [Heap.pageAt, setOwner_node h]
      simp [this, h]

end Checkedthreads.AllocLists

namespace Checkedthreads.OwnerMap

open Pagetab AllocLists

/-- The page table of the detector: a table some shape describes. -/
def PT : Type := { m : Mem // Wf m }

namespace PT

-- `g_ct_pagetab_L3 = {{0},0}`
def init : PT := ⟨Mem.init, _, rep_init⟩

-- the owner the table records for each address
def ownerAt (p : PT) (a : ℕ) : UInt8 := AllocLists.ownerAt p.1 a

-- a live page of `p`: what `ct_get_page` returns
def Page (p : PT) : Type := { q : ℕ // (p.1.heap.pageAt q).isSome }

lemma isSome_ctGetPage (p : PT) (a : ℕ) : (ctGetPage p.1 a).isSome := by
  obtain ⟨s, r⟩ := p.2
  obtain ⟨m', ip, s', h, -⟩ := r.ctGetPage a
  simp [h]

lemma getPage_ok (p : PT) (a : ℕ) :
    ∃ s, Rep ((ctGetPage p.1 a).get (isSome_ctGetPage p a)).1 s ∧
      s.path a = some ((ctGetPage p.1 a).get (isSome_ctGetPage p a)).2 ∧
      AllocLists.ownerAt ((ctGetPage p.1 a).get (isSome_ctGetPage p a)).1 = p.ownerAt := by
  obtain ⟨s, r⟩ := p.2
  obtain ⟨m', ip, s', h, r', hp, hc, -⟩ := r.ctGetPage a
  rw [Option.get_of_mem _ h]
  exact ⟨s', r', hp, by rw [r'.ownerAt_eq, hc, ← r.ownerAt_eq]; rfl⟩

/-- `ct_get_page`: on the detector's table it cannot fail. -/
def getPage (p : PT) (a : ℕ) : (p' : PT) × p'.Page :=
  have ok := getPage_ok p a
  ⟨⟨_, ok.elim fun s h => ⟨s, h.1⟩⟩, _, ok.elim fun _ h => h.1.pageAt_path h.2.1⟩

-- `page->owning_thread[ix]`
def owningThread (p : PT) (q : p.Page) (ix : ℕ) : UInt8 :=
  ((p.1.heap.pageAt q.1).get q.2).owningThread ix

-- `page->owning_thread[ix] = v`
def setOwningThread (p : PT) (q : p.Page) (ix : ℕ) (v : UInt8) : PT :=
  ⟨⟨setOwner p.1.heap q.1 ((p.1.heap.pageAt q.1).get q.2) ix v, p.1.l3⟩,
    p.2.elim fun s r => ⟨s, r.setOwner (Option.some_get q.2).symm ix v⟩⟩

lemma isSome_ctClearPagetab (p : PT) : (ctClearPagetab p.1).isSome :=
  p.2.elim fun _ r => by simp [r.ctClearPagetab_eq]

-- `ct_clear_pagetab`: on the detector's table it cannot fail
def clear (p : PT) : PT :=
  ⟨((ctClearPagetab p.1).get (isSome_ctClearPagetab p)).1, p.2.elim fun _ r =>
    ⟨_, by rw [Option.get_of_mem _ r.ctClearPagetab_eq]; exact r.clear⟩⟩

/-! ### Function specs: each operation on the map the table stands for -/

@[simp] lemma ownerAt_init : init.ownerAt = fun _ => 0 := rfl

lemma getPage_spec (p : PT) (a : ℕ) :
    ∃ s, Rep (p.getPage a).1.1 s ∧ s.path a = some (p.getPage a).2.1 ∧
      (p.getPage a).1.ownerAt = p.ownerAt :=
  getPage_ok p a

@[simp] lemma ownerAt_getPage (p : PT) (a : ℕ) : (p.getPage a).1.ownerAt = p.ownerAt :=
  (getPage_spec p a).elim fun _ h => h.2.2

-- the byte `ct_get_page` leads to holds the owner of the address
@[simp] lemma owningThread_getPage (p : PT) (a : ℕ) :
    (p.getPage a).1.owningThread (p.getPage a).2 (byteInPage a) = p.ownerAt a := by
  obtain ⟨s, r, hp, hr⟩ := getPage_spec p a
  rw [← hr, PT.ownerAt, r.ownerAt_eq, content, ownerIn, hp, Option.some_bind, ← Option.some_get (p.getPage a).2.2]
  rfl

-- a store through `ct_get_page` sets the owner of every address with the same low 32 bits
lemma ownerAt_setOwningThread_getPage (p : PT) (a : ℕ) (v : UInt8) (b : ℕ) :
    ((p.getPage a).1.setOwningThread (p.getPage a).2 (byteInPage a) v).ownerAt b =
      if uint b = uint a then v else p.ownerAt b := by
  obtain ⟨s, r, hp, hr⟩ := getPage_spec p a
  have hq := (Option.some_get (p.getPage a).2.2).symm
  have key : s.path b = some (p.getPage a).2.1 ∧ byteInPage b = byteInPage a ↔
      uint b = uint a := by
    rw [← slices_eq_iff]
    exact and_congr_left fun _ =>
      ⟨fun h => Shape.path_inj r.nodup h hp, fun h => (s.path_congr h.1 h.2).trans hp⟩
  rw [← hr]
  simp only [PT.ownerAt, setOwningThread]
  rw [(r.setOwner hq _ v).ownerAt_eq, r.ownerAt_eq, content_setOwner hq, if_congr key rfl rfl]

@[simp] lemma ownerAt_clear (p : PT) : p.clear.ownerAt = fun _ => 0 := by
  obtain ⟨s, r⟩ := p.2
  funext b
  simp only [clear, PT.ownerAt, Option.get_of_mem _ r.ctClearPagetab_eq, r.clear.ownerAt_eq]
  simp [content, ownerIn, Shape.path, Shape.l1Path, Shape.empty]

end PT

/-! ### Runs of map operations -/

/-- The operations on the owners: a store through `ct_get_page`, a load through it, a clear. -/
inductive MapOp
  | write (a : ℕ) (v : UInt8)
  | read (a : ℕ)
  | clear

-- one operation, and the owner a read returned
def mapStep (p : PT) : MapOp → PT × Option UInt8
  | .write a v => ((p.getPage a).1.setOwningThread (p.getPage a).2 (byteInPage a) v, none)
  | .read a => ((p.getPage a).1, some ((p.getPage a).1.owningThread (p.getPage a).2 (byteInPage a)))
  | .clear => (p.clear, none)

-- the owners the reads of a run return
def mapRun (p : PT) : List MapOp → List UInt8
  | [] => []
  | op :: ops => (mapStep p op).2.toList ++ mapRun (mapStep p op).1 ops

/-- The reads of a run on a total map `f` in which two addresses with the same `key` are one
entry: each read returns the latest write to its entry since the latest clear, else `0`. -/
def mapSpec (key : ℕ → ℕ) (f : ℕ → UInt8) : List MapOp → List UInt8
  | [] => []
  | .write a v :: ops => mapSpec key (fun b => if key b = key a then v else f b) ops
  | .read a :: ops => f a :: mapSpec key f ops
  | .clear :: ops => mapSpec key (fun _ => 0) ops

/-- **The page table refines a total map keyed by the low 32 bits of the address**, from any
table the detector can hold, over any run of stores, loads and clears. -/
theorem mapRun_eq_mapSpec (p : PT) (ops : List MapOp) : mapRun p ops = mapSpec uint p.ownerAt ops := by
  induction ops generalizing p with
  | nil => rfl
  | cons op ops ih =>
    cases op with
    | write a v =>
      simp only [mapRun, mapStep, Option.toList, List.nil_append, ih, mapSpec]
      congr 1
      funext b
      exact PT.ownerAt_setOwningThread_getPage p a v b
    | read a => simp [mapRun, mapSpec, mapStep, ih]
    | clear => simp [mapRun, mapSpec, mapStep, ih]

/-- A store to `0` is read back at `2^32`, where a map over 48-bit addresses has no write. -/
theorem mapRun_aliases :
    mapRun PT.init [.write 0 1, .read (2 ^ 32)] ≠ mapSpec id PT.init.ownerAt [.write 0 1, .read (2 ^ 32)] := by
  decide

end Checkedthreads.OwnerMap
