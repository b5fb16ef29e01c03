import Checkedthreads.Monitor

/-!
The command objects of the runtime, and `ct_process_command` reading them back.

A `ct_cmd` is the tag `MAGIC`, four bytes little-endian, the sixteen bytes of
`"Valgrind command"`, and a payload: the opcode's text, and the argument where the opcode's
branch reads it, an `int32_t` at `payload[4]` for `iter`, `done` and `thrd` and an `Addr` at
`payload[8]` for `stackbot`. Both offsets fall right after the opcode's text, so the argument
never overlaps the text `ct_str_is` compares. Every command then reads back: `ct_on_store`
takes the object for a command, the if-chain takes that command's branch, and the branch reads
back the argument, sign included.
-/

namespace Checkedthreads.Command

variable {σ : Type}

/-! ### Bytes in the client's memory -/

/-- The client's memory holds `bytes` from `p` on. -/
def Holds (mem : ℕ → UInt8) (p : ℕ) (bytes : List UInt8) : Prop :=
  ∀ i < bytes.length, mem (p + i) = bytes.getD i 0

instance (mem : ℕ → UInt8) (p : ℕ) (bytes : List UInt8) : Decidable (Holds mem p bytes) :=
  inferInstanceAs (Decidable (∀ i < _, _))

lemma holds_cons {mem : ℕ → UInt8} {p : ℕ} {b : UInt8} {bs : List UInt8} :
    Holds mem p (b :: bs) ↔ mem p = b ∧ Holds mem (p + 1) bs := by
  constructor
  · intro h
    refine ⟨h 0 (by simp), fun i hi => ?_⟩
    simpa [Nat.add_right_comm, Nat.add_assoc] using h (i + 1) (by simpa using hi)
  · rintro ⟨h0, h⟩ (_ | i) hi
    · simpa using h0
    · simpa [Nat.add_assoc, Nat.add_comm 1] using h i (by simpa using hi)

lemma holds_append {mem : ℕ → UInt8} {p : ℕ} {a b : List UInt8} :
    Holds mem p (a ++ b) ↔ Holds mem p a ∧ Holds mem (p + a.length) b := by
  induction a generalizing p with
  | nil => simp [Holds]
  | cons x a ih =>
    simp only [List.cons_append, holds_cons, ih, List.length_cons, and_assoc, Nat.add_assoc,
      Nat.add_comm 1]

/-- `w` bytes of `x`, little-endian. -/
def leBytes : ℕ → ℕ → List UInt8
  | 0, _ => []
  | w + 1, x => UInt8.ofNat (x % 256) :: leBytes w (x / 256)

lemma le_of_holds {mem : ℕ → UInt8} {p w x : ℕ} (h : Holds mem p (leBytes w x)) :
    le mem p w = x % 256 ^ w := by
  induction w generalizing p x with
  | zero => simp [le, Nat.mod_one]
  | succ w ih =>
    rw [leBytes, holds_cons] at h
    rw [le, h.1, ih h.2, UInt8.toNat_ofNat_of_lt (Nat.mod_lt _ (by decide)), pow_succ',
      Nat.mod_mul]

-- the four bytes of an `int32_t`
def int32Bytes (n : ℤ) : List UInt8 := leBytes 4 (n % 2 ^ 32).toNat

lemma toInt32_of_holds {mem : ℕ → UInt8} {p : ℕ} {n : ℤ} (h : Holds mem p (int32Bytes n))
    (h1 : -2 ^ 31 ≤ n) (h2 : n < 2 ^ 31) : toInt32 (le mem p 4) = n := by
  rw [le_of_holds h, toInt32]
  split_ifs <;> omega

-- the bytes of a text
def textBytes (s : String) : List UInt8 := s.toList.map Char.toUInt8

lemma strIsFrom_of_holds {mem : ℕ → UInt8} {p : ℕ} {cs : List Char}
    (h : Holds mem p (cs.map Char.toUInt8)) : strIsFrom mem p cs = true := by
  induction cs generalizing p with
  | nil => rfl
  | cons c cs ih =>
    rw [List.map_cons, holds_cons] at h
    simp [strIsFrom, h.1, ih h.2]

lemma ctStrIs_of_holds {mem : ℕ → UInt8} {p : ℕ} {s : String} (h : Holds mem p (textBytes s)) :
    ctStrIs mem p s = true :=
  strIsFrom_of_holds h

/-! ### Commands -/

/-- A command of the runtime, with its argument. -/
inductive Cmd
  | beginFor
  | endFor
  | iter (n : ℤ)
  | done (n : ℤ)
  | thrd (n : ℤ)
  | stackbot (bot : ℕ)
  deriving DecidableEq, Repr

-- the opcode of a command
def Cmd.opcode : Cmd → Opcode
  | .beginFor => .beginFor
  | .endFor => .endFor
  | .iter _ => .iter
  | .done _ => .done
  | .thrd _ => .thrd
  | .stackbot _ => .stackbot

-- the argument of a command, in the bytes its branch reads
def Cmd.argBytes : Cmd → List UInt8
  | .iter n | .done n | .thrd n => int32Bytes n
  | .stackbot bot => leBytes 8 bot
  | _ => []

/-- The payload of a command: its opcode's text, and right after it the argument, where the
opcode's branch reads it: `ct_cmd_int(cmd, 4)` after the four letters of `iter`, `done` and
`thrd`, `ct_cmd_ptr(cmd, 8)` after the eight of `stackbot`. -/
def Cmd.payload (c : Cmd) : List UInt8 := textBytes c.opcode.text ++ c.argBytes

/-- An argument the command object can carry: an `int32_t`, or a 64-bit `Addr`. The argument of
`thrd` is below `INT_MAX`, so that `g_ct_curr_thread`, one more, is an `Int` too. -/
def Cmd.Valid : Cmd → Prop
  | .iter n | .done n => -2 ^ 31 ≤ n ∧ n < 2 ^ 31
  | .thrd n => -2 ^ 31 ≤ n ∧ n + 1 < 2 ^ 31
  | .stackbot bot => bot < 2 ^ 64
  | _ => True

/-- What each command is for: the region state it sets, and the line it prints under
`--print-commands=yes`. -/
def Cmd.apply (clear : σ → σ) (stackEnd : ℕ) (g : Globals σ) : Cmd → Globals σ × List Diag
  | .beginFor => (g, echo g .beginFor)
  | .endFor => ({ g with pagetab := clear g.pagetab, currThread := 0 }, echo g .endFor)
  | .iter n => ({ g with active := true }, echo g (.iter n))
  | .done n => ({ g with active := false }, echo g (.done n))
  | .thrd n => ({ g with currThread := n + 1 }, [])
  | .stackbot bot => ({ g with stackbot := bot, stackend := stackEnd }, echo g (.stackbot bot stackEnd))

/-! ### Reading a command back -/

lemma storedMagic_of_holds {mem : ℕ → UInt8} {p : ℕ} (h : Holds mem p [0x78, 0x56, 0x34, 0x12]) :
    storedMagic mem p = magic :=
  le_of_holds (w := 4) (x := magic) h

lemma ctCmdInt_of_holds {mem : ℕ → UInt8} {cmd : ℕ} {n : ℤ} (h : Holds mem (cmd + 20 + 4) (int32Bytes n))
    (hn : -2 ^ 31 ≤ n ∧ n < 2 ^ 31) : ctCmdInt mem cmd 4 = n :=
  toInt32_of_holds h hn.1 hn.2

lemma ctCmdPtr_of_holds {mem : ℕ → UInt8} {cmd bot : ℕ} (h : Holds mem (cmd + 20 + 8) (leBytes 8 bot))
    (hb : bot < 2 ^ 64) : ctCmdPtr mem cmd 8 = bot :=
  (le_of_holds h).trans (Nat.mod_eq_of_lt hb)

/-- **Every command reads back.** A store of the `ct_cmd` object of a command, in any memory,
makes `ct_on_store` take it for a command and `ct_process_command` do that command with its own
argument: every `int32_t` and every 64-bit address is read back, and `thrd n` sets
`g_ct_curr_thread` to `n + 1` for every `n` below `INT_MAX`. -/
theorem onStoreCommand_cmdBytes (clear : σ → σ) (mem : ℕ → UInt8) (stackEnd : ℕ) (g : Globals σ)
    (cmd : ℕ) (c : Cmd) (hc : c.Valid) (hm : Holds mem cmd (cmdBytes c.payload)) :
    Monitor.onStoreCommand clear mem stackEnd g cmd =
      ({ (c.apply clear stackEnd g).1 with lastCmd := cmd }, (c.apply clear stackEnd g).2) := by
  rw [cmdBytes, holds_append, holds_append, Cmd.payload, holds_append] at hm
  obtain ⟨⟨htag, hconst⟩, htext, harg⟩ := hm
  have hop : decodeOpcode mem cmd = some c.opcode :=
    decodeOpcode_of_ctStrIs (ctStrIs_of_holds htext)
  rw [Monitor.onStoreCommand, if_pos (storedMagic_of_holds htag), ctProcessCommand,
    ctStrIs_of_holds (p := cmd + 4) hconst]
  simp only [Bool.not_true, Bool.false_eq_true, if_false, dispatch, hop]
  cases c with
  | beginFor => rfl
  | endFor => rfl
  | iter n => simp only [Cmd.opcode, Cmd.apply, ctCmdInt_of_holds harg hc]
  | done n => simp only [Cmd.opcode, Cmd.apply, ctCmdInt_of_holds harg hc]
  | thrd n =>
    obtain ⟨h1, h2⟩ : -2 ^ 31 ≤ n ∧ n + 1 < 2 ^ 31 := hc
    simp only [Cmd.opcode, Cmd.apply, ctCmdInt_of_holds harg ⟨h1, by omega⟩,
      wrapInt32_of_mem (by omega) h2]
  | stackbot bot => simp only [Cmd.opcode, Cmd.apply, ctCmdPtr_of_holds harg hc]

-- worker `7` announces itself with `thrd`, its number at `payload[4]`
theorem thrd_seven_reads_back :
    (Cmd.thrd 7).Valid ∧ Holds (memWith 64 (cmdBytes (Cmd.thrd 7).payload)) 64
      (cmdBytes (Cmd.thrd 7).payload) ∧
    Monitor.onStoreCommand OwnerMap.PT.clear (memWith 64 (cmdBytes (Cmd.thrd 7).payload)) 0
        (Globals.init OwnerMap.PT.init false) 64 =
      ({ ((Cmd.thrd 7).apply OwnerMap.PT.clear 0 (Globals.init OwnerMap.PT.init false)).1 with
          lastCmd := 64 },
        ((Cmd.thrd 7).apply OwnerMap.PT.clear 0 (Globals.init OwnerMap.PT.init false)).2) :=
  ⟨⟨by decide, by decide⟩, by decide, onStoreCommand_cmdBytes _ _ _ _ _ _ (⟨by decide, by decide⟩) (by decide)⟩

end Checkedthreads.Command
