import Mathlib.Algebra.Group.Int
import Mathlib.Algebra.Group.Nat.Basic
import Mathlib.Logic.Function.Basic

/-!
The ownership store of the checkedthreads race detector: the owner of every byte the
instrumented program touches, in a three-level page table under `g_ct_pagetab_L3`.

`ct_get_page` walks down the table, allocating each missing L2 table, L1 table or page with
`VG_(calloc)` and threading it onto the allocation list of its parent before linking it into
the parent's slot. `ct_clear_pagetab` walks the allocation lists, not the slot arrays, and
frees every node. Nodes live in a heap of identities; an identity once freed is never handed
out again.
-/

namespace Checkedthreads.Pagetab

/-! ### Slicing an address

`L2_PAGETAB`, `L1_PAGETAB`, `PAGE` and `BYTE_IN_PAGE`, each after the `(UInt)` cast the macros
apply first. `UInt` is 32 bits wide. -/

def uint (a : ℕ) : ℕ := a % 2 ^ 32

def l2Pagetab (a : ℕ) : ℕ := ((uint a >>> 24) >>> 12) &&& 0xfff
def l1Pagetab (a : ℕ) : ℕ := (uint a >>> 24) &&& 0xfff
def page (a : ℕ) : ℕ := (uint a >>> 12) &&& 0xfff
def byteInPage (a : ℕ) : ℕ := uint a &&& 0xfff

lemma mask_eq (x : ℕ) : x &&& 0xfff = x % 2 ^ 12 := Nat.and_pow_two_sub_one_eq_mod x 12

-- the cast leaves nothing for the top level: every address goes to slot `0` of L3
lemma l2Pagetab_eq (a : ℕ) : l2Pagetab a = 0 := by
  simp only [l2Pagetab, uint, Nat.shiftRight_eq_div_pow, Nat.div_div_eq_div_mul]
  rw [show a % 2 ^ 32 / (2 ^ 24 * 2 ^ 12) = 0 by omega, Nat.zero_and]

lemma l1Pagetab_eq (a : ℕ) : l1Pagetab a = a % 2 ^ 32 / 2 ^ 24 := by
  rw [l1Pagetab, mask_eq, uint, Nat.shiftRight_eq_div_pow]; omega

lemma page_eq (a : ℕ) : page a = a / 2 ^ 12 % 2 ^ 12 := by
  rw [page, mask_eq, uint, Nat.shiftRight_eq_div_pow]; omega

lemma byteInPage_eq (a : ℕ) : byteInPage a = a % 2 ^ 12 := by
  rw [byteInPage, mask_eq, uint]; omega

/-! ### Nodes and the heap -/

/-- `ct_page`: the owner of each byte (`0` for none), and the page allocated before this one
under the same L1 table. Its `index` field is never written or read. -/
structure CtPage where
  owningThread : ℕ → UInt8
  prevAllocPage : Option ℕ

/-- A slot array and the head of the list of the nodes allocated under it. Every level has
both, and `ct_pagetab_L3` has nothing else; `ct_pagetab_L1` and `ct_pagetab_L2` share a layout,
`CtPagetab`, with the link to the table allocated before this one under the same parent. -/
structure Tab where
  slots : ℕ → Option ℕ
  lastAlloc : Option ℕ

structure CtPagetab extends Tab where
  prevAlloc : Option ℕ

def Tab.empty : Tab := ⟨fun _ => none, none⟩

inductive Node
  | l2 (t : CtPagetab)
  | l1 (t : CtPagetab)
  | page (p : CtPage)

-- the three levels of node `ct_get_page` allocates
inductive Level
  | l2 | l1 | page

-- the two of them that are tables, and the level of the nodes each allocates
inductive TabLevel
  | l2 | l1

def TabLevel.child : TabLevel → Level
  | .l2 => .l1
  | .l1 => .page

def Node.ofTab : TabLevel → CtPagetab → Node
  | .l2, t => .l2 t
  | .l1, t => .l1 t

def Node.asTab : TabLevel → Node → Option CtPagetab
  | .l2, .l2 t => some t
  | .l1, .l1 t => some t
  | _, _ => none

/-- The link of a node of level `k` to the one allocated before it under the same parent
(`prev_alloc_pagetab_L2`, `prev_alloc_pagetab_L1`, `prev_alloc_page`); `none` for a node of
another level. -/
def Node.prev : Level → Node → Option (Option ℕ)
  | .l2, .l2 t => some t.prevAlloc
  | .l1, .l1 t => some t.prevAlloc
  | .page, .page p => some p.prevAllocPage
  | _, _ => none

/-- The nodes `VG_(calloc)` has handed out and `VG_(free)` has not taken back, by identity,
and the identity the next allocation gets. -/
structure Heap where
  node : ℕ → Option Node
  next : ℕ

structure Mem where
  heap : Heap
  l3 : Tab

-- `g_ct_pagetab_L3 = {{0},0}`, before anything is allocated
def Mem.init : Mem := ⟨⟨fun _ => none, 0⟩, Tab.empty⟩

namespace Heap

-- `VG_(calloc)`: the node at a fresh identity
def calloc (h : Heap) (n : Node) : Heap :=
  ⟨Function.update h.node h.next (some n), h.next + 1⟩

-- `VG_(free)`. Freeing what is not live is undefined, and fails
def free (h : Heap) (i : ℕ) : Option Heap :=
  (h.node i).map fun _ => ⟨Function.update h.node i none, h.next⟩

-- a store into the fields of node `i`
def write (h : Heap) (i : ℕ) (n : Node) : Heap :=
  ⟨Function.update h.node i (some n), h.next⟩

-- the table of level `k` at identity `i`: `none` when `i` is free or holds another level
def tabAt (h : Heap) (k : TabLevel) (i : ℕ) : Option CtPagetab := (h.node i).bind (Node.asTab k)

def pageAt (h : Heap) (i : ℕ) : Option CtPage :=
  match h.node i with
  | some (.page p) => some p
  | _ => none

@[simp] lemma calloc_next (h : Heap) (n : Node) : (h.calloc n).next = h.next + 1 := rfl
@[simp] lemma write_next (h : Heap) (i : ℕ) (n : Node) : (h.write i n).next = h.next := rfl

lemma calloc_node (h : Heap) (n : Node) (k : ℕ) :
    (h.calloc n).node k = if k = h.next then some n else h.node k := by
  simp [calloc, Function.update_apply]

lemma write_node (h : Heap) (i : ℕ) (n : Node) (k : ℕ) :
    (h.write i n).node k = if k = i then some n else h.node k := by
  simp [write, Function.update_apply]

end Heap

/-! ### `ct_get_page` -/

/-- What `VG_(calloc)` hands back for a node of level `k`, zeroed, with its list link set to
`p`: a page is owned by nobody. -/
def newNode : Level → Option ℕ → Node
  | .l2, p => .l2 ⟨Tab.empty, p⟩
  | .l1, p => .l1 ⟨Tab.empty, p⟩
  | .page, p => .page ⟨fun _ => 0, p⟩

/-- One level of `ct_get_page`: the node in slot `ix` of `t`, or else a zeroed node that `mk`
links to `t`'s list head, put at the head of `t`'s allocation list and into the slot. -/
def descend (h : Heap) (t : Tab) (ix : ℕ) (mk : Option ℕ → Node) : Heap × Tab × ℕ :=
  match t.slots ix with
  | some c => (h, t, c)
  | none => (h.calloc (mk t.lastAlloc),
      ⟨Function.update t.slots ix (some h.next), some h.next⟩, h.next)

/-- `ct_get_page`: the page that holds the owner of `a`, allocating what is missing on the way
down. `none` where the C code would follow a pointer to something that is not a live node of
the expected level. -/
def ctGetPage (m : Mem) (a : ℕ) : Option (Mem × ℕ) := do
  let (h, l3, i2) := descend m.heap m.l3 (l2Pagetab a) (newNode .l2)
  let t2 ← h.tabAt .l2 i2
  let (h, tab2, i1) := descend h t2.toTab (l1Pagetab a) (newNode .l1)
  let h := h.write i2 (.l2 { t2 with toTab := tab2 })
  let t1 ← h.tabAt .l1 i1
  let (h, tab1, ip) := descend h t1.toTab (page a) (newNode .page)
  pure (⟨h.write i1 (.l1 { t1 with toTab := tab1 }), l3⟩, ip)

/-! ### `ct_clear_pagetab` -/

/-- One `while` loop of `ct_clear_pagetab`: along an allocation list of level `k`, free with
`inner` what hangs under each node and then the node. The freed identities come back in the
order of the `VG_(free)` calls. The C loop runs until a null link; `fuel` bounds the length
of the list, and on a well-formed table the fuel `ct_clear_pagetab` passes is enough. -/
def walk (k : Level) (inner : Heap → ℕ → Option (Heap × List ℕ)) :
    ℕ → Heap → Option ℕ → Option (Heap × List ℕ)
  | _, h, none => some (h, [])
  | 0, _, some _ => none
  | fuel + 1, h, some i => do
    let p ← (h.node i).bind (Node.prev k)
    let (h, fs) ← inner h i
    let h ← h.free i
    let (h, gs) ← walk k inner fuel h p
    pure (h, fs ++ i :: gs)

-- the innermost loop, the pages of one L1 table; then the L1 tables of one L2 table, each
-- after its pages; then the L2 tables, each after its L1 tables
def freePages (fuel : ℕ) : Heap → Option ℕ → Option (Heap × List ℕ) :=
  walk .page (fun h _ => some (h, [])) fuel

def freeL1s (fuel : ℕ) : Heap → Option ℕ → Option (Heap × List ℕ) :=
  walk .l1 (fun h i => (h.tabAt .l1 i).bind fun t => freePages fuel h t.lastAlloc) fuel

def freeL2s (fuel : ℕ) : Heap → Option ℕ → Option (Heap × List ℕ) :=
  walk .l2 (fun h i => (h.tabAt .l2 i).bind fun t => freeL1s fuel h t.lastAlloc) fuel

/-- `ct_clear_pagetab`: free everything under `g_ct_pagetab_L3`, then null its slots and its
list. Every list is shorter than the number of identities handed out, which is the fuel. -/
def ctClearPagetab (m : Mem) : Option (Mem × List ℕ) := do
  let (h, freed) ← freeL2s m.heap.next m.heap m.l3.lastAlloc
  pure (⟨h, Tab.empty⟩, freed)

example : (ctGetPage Mem.init 0x12345678).map (·.2) = some 2 := by decide

end Checkedthreads.Pagetab
