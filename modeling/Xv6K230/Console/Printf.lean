import Mathlib.Data.BitVec
import Mathlib.Data.Nat.Digits.Lemmas

/-! # Formatted output

`printf` of the kernel (`kernel/uart.c`) and `vprintf` of the user library
(`user/printf.c`). A format string is the list of its characters before the NUL, and
reading a character behind the NUL is a fault, as is a store behind the end of `buf`. The
variable arguments are 64-bit words, with a map from addresses to the strings there.
-/

namespace Xv6K230.Printf

open List (append_assoc length_append length_cons)

inductive Fault where
  | format
  | buffer
  | fuel
  deriving DecidableEq

/-! ## Numbers -/

-- static char digits[], in lower case in the kernel and in upper case in the library
def lower : List UInt8 := [48, 49, 50, 51, 52, 53, 54, 55, 56, 57, 97, 98, 99, 100, 101, 102]
def upper : List UInt8 := [48, 49, 50, 51, 52, 53, 54, 55, 56, 57, 65, 66, 67, 68, 69, 70]

/-- `buf[i++] = c` with `char buf[20]`. -/
def put (buf : List UInt8) (c : UInt8) : Except Fault (List UInt8) :=
  if buf.length < 20 then .ok (buf ++ [c]) else .error .buffer

-- do { buf[i++] = digits[x % base]; } while((x /= base) != 0);
def digitLoop (digits : List UInt8) (base : Nat) : Nat → Nat → List UInt8 → Except Fault (List UInt8)
  | 0, _, _ => .error .fuel
  | fuel + 1, x, buf => do
    let buf ← put buf (digits.getD (x % base) 0)
    if x / base ≠ 0 then digitLoop digits base fuel (x / base) buf else return buf

def printint (digits : List UInt8) (xx : BitVec 64) (base : Nat) (sign : Bool) : Except Fault (List UInt8) := do
  let neg := sign && xx.msb
  let x := if neg then -xx else xx
  let buf ← digitLoop digits base 64 x.toNat []
  let buf ← if neg then put buf 45 else pure buf
  return buf.reverse

/-- `printint` of the kernel: the characters given to `uartputc_sync`. -/
def Kernel.printint : BitVec 64 → Nat → Bool → Except Fault (List UInt8) := Printf.printint lower

/-- `printint` of the library: the characters written to the descriptor. -/
def User.printint : BitVec 64 → Nat → Bool → Except Fault (List UInt8) := Printf.printint upper

def ptrLoop (digits : List UInt8) : Nat → BitVec 64 → List UInt8
  | 0, _ => []
  | n + 1, x => digits.getD (x >>> (64 - 4)).toNat 0 :: ptrLoop digits n (x <<< 4)

def printptr (digits : List UInt8) (x : BitVec 64) : List UInt8 := 48 :: 120 :: ptrLoop digits 16 x

/-- The text `out` is the numeral of `v`: its digits without leading zeros, after a minus if `v` is negative. -/
def Numeral (digits : List UInt8) (base : Nat) (v : Int) (out : List UInt8) : Prop :=
  ∃ ds : List Nat, ds ≠ [] ∧ (∀ d ∈ ds, d < base) ∧ (ds.getLast? = some 0 → ds = [0]) ∧ Nat.ofDigits base ds = v.natAbs ∧
    out = (if v < 0 then [45] else []) ++ (ds.map fun d => digits.getD d 0).reverse

/-- The loop stores the digits of `x`, the same ones for every table. -/
lemma digitLoop_spec {base : Nat} (hBase : 1 < base) (n : Nat) : ∀ {fuel x : Nat}, n < fuel → x < base ^ (n + 1) →
    ∃ ds : List Nat, ds ≠ [] ∧ (∀ d ∈ ds, d < base) ∧ (ds.getLast? = some 0 → ds = [0]) ∧ Nat.ofDigits base ds = x ∧
      ds.length ≤ n + 1 ∧ ∀ digits buf, buf.length + n < 20 →
        digitLoop digits base fuel x buf = .ok (buf ++ ds.map fun d => digits.getD d 0) := by
  induction n with
  | zero =>
    intro fuel x hFuel hx
    obtain ⟨fuel, rfl⟩ := Nat.exists_eq_succ_of_ne_zero hFuel.ne_bot
    have hLt : x < base := by simpa using hx
    refine ⟨[x], by simp, by simpa using hLt, by simp, by simp, by simp, fun digits buf hBuf => ?_⟩
    rw [digitLoop, put, if_pos (by omega), Nat.mod_eq_of_lt hLt, Nat.div_eq_of_lt hLt]
    rfl
  | succ n ih =>
    intro fuel x hFuel hx
    obtain ⟨fuel, rfl⟩ := Nat.exists_eq_succ_of_ne_zero (Nat.ne_zero_of_lt hFuel)
    have hMod : x % base < base := Nat.mod_lt _ (by omega)
    have hPut : ∀ {buf : List UInt8}, buf.length + (n + 1) < 20 → buf.length < 20 := fun h => by omega
    by_cases hq : x / base = 0
    · refine ⟨[x % base], by simp, by simpa using hMod, by simp, ?_, by simp, fun digits buf hBuf => ?_⟩
      · simpa [hq] using Nat.mod_add_div x base
      · rw [digitLoop, put, if_pos (hPut hBuf), hq]
        rfl
    · have hRest : x / base < base ^ (n + 1) := Nat.div_lt_of_lt_mul (by rw [← pow_succ']; exact hx)
      obtain ⟨ds, hNe, hDigits, hLast, hValue, hLen, hLoop⟩ := ih (by omega : n < fuel) hRest
      refine ⟨x % base :: ds, by simp, ?_, fun hZero => ?_, ?_, by simpa using hLen, fun digits buf hBuf => ?_⟩
      · simpa using ⟨hMod, hDigits⟩
      · rw [List.getLast?_cons_of_ne_nil hNe] at hZero
        rw [hLast hZero] at hValue
        exact absurd (by simpa using hValue.symm) hq
      · rw [Nat.ofDigits_cons, hValue]
        exact Nat.mod_add_div x base
      · have hNext := hLoop digits (buf ++ [digits.getD (x % base) 0]) (by simpa using (by omega : buf.length + 1 + n < 20))
        rw [digitLoop, put, if_pos (hPut hBuf)]
        change (if x / base ≠ 0 then digitLoop digits base fuel (x / base) _ else _) = _
        rw [if_pos hq, hNext]
        simp

/-- The value whose numeral `printint` prints. -/
def shown (xx : BitVec 64) (sign : Bool) : Int := if sign then xx.toInt else xx.toNat

lemma magnitude (xx : BitVec 64) (sign : Bool) :
    ((sign && xx.msb) = true ↔ shown xx sign < 0) ∧ (if (sign && xx.msb) = true then -xx else xx).toNat = (shown xx sign).natAbs ∧
      ((sign && xx.msb) = true → (shown xx sign).natAbs ≤ 2 ^ 63) := by
  have hLt := xx.isLt
  have hInt := BitVec.toInt_eq_msb_cond xx
  have hMsb := BitVec.msb_eq_decide xx
  have hNeg := BitVec.toNat_neg xx
  unfold shown
  cases sign <;> cases hx : xx.msb <;> simp only [hx] at hInt hMsb ⊢ <;> simp at hInt hMsb hNeg ⊢ <;> omega

/-- What `printint` prints, as digits that do not depend on the table. -/
lemma printint_digits (xx : BitVec 64) {base : Nat} (hBase : base = 10 ∨ base = 16) (sign : Bool) :
    ∃ ds : List Nat, ds ≠ [] ∧ (∀ d ∈ ds, d < base) ∧ (ds.getLast? = some 0 → ds = [0]) ∧
      Nat.ofDigits base ds = (shown xx sign).natAbs ∧ ∀ digits, printint digits xx base sign =
        .ok ((if shown xx sign < 0 then [45] else []) ++ (ds.map fun d => digits.getD d 0).reverse) := by
  have hOne : 1 < base := by omega
  have hTop : 2 ^ 64 ≤ base ^ 20 ∧ 2 ^ 63 < base ^ 19 := by
    rcases hBase with rfl | rfl <;> decide
  obtain ⟨hNeg, hAbs, hSmall⟩ := magnitude xx sign
  unfold printint
  by_cases h : (sign && xx.msb) = true
  · -- 19 digits at most, and the sign
    simp only [h, if_true] at hAbs ⊢
    have hx : (-xx).toNat < base ^ (18 + 1) := by
      rw [hAbs]
      exact lt_of_le_of_lt (hSmall h) hTop.2
    obtain ⟨ds, hNe, hDigits, hLast, hValue, hLen, hLoop⟩ := digitLoop_spec hOne 18 (by decide : 18 < 64) hx
    refine ⟨ds, hNe, hDigits, hLast, hValue.trans hAbs, fun digits => ?_⟩
    rw [hLoop digits [] (by decide), if_pos (hNeg.mp h)]
    change (put _ 45 >>= fun buf => _) = _
    rw [put, if_pos (by simpa using Nat.lt_succ_of_le hLen)]
    exact congrArg Except.ok (by simp)
  · simp only [h, Bool.false_eq_true, if_false] at hAbs ⊢
    have hx : xx.toNat < base ^ (19 + 1) := lt_of_lt_of_le xx.isLt hTop.1
    obtain ⟨ds, hNe, hDigits, hLast, hValue, -, hLoop⟩ := digitLoop_spec hOne 19 (by decide : 19 < 64) hx
    refine ⟨ds, hNe, hDigits, hLast, hValue.trans hAbs, fun digits => ?_⟩
    rw [hLoop digits [] (by decide), if_neg fun hv => h (hNeg.mpr hv)]
    exact congrArg Except.ok (by simp)

/-- Both versions print the numeral of the value, and all of it fits in the 20 bytes of `buf`. -/
theorem printint_numeral (xx : BitVec 64) {base : Nat} (hBase : base = 10 ∨ base = 16) (sign : Bool) :
    (∃ out, Kernel.printint xx base sign = .ok out ∧ Numeral lower base (if sign then xx.toInt else xx.toNat) out) ∧
    ∃ out, User.printint xx base sign = .ok out ∧ Numeral upper base (if sign then xx.toInt else xx.toNat) out := by
  obtain ⟨ds, hNe, hDigits, hLast, hValue, hPrint⟩ := printint_digits xx hBase sign
  exact ⟨⟨_, hPrint lower, ds, hNe, hDigits, hLast, hValue, rfl⟩, ⟨_, hPrint upper, ds, hNe, hDigits, hLast, hValue, rfl⟩⟩

/-- The most negative value fills `buf`. -/
theorem printint_numeral_least : ∃ out, Kernel.printint (BitVec.intMin 64) 10 true = .ok out ∧ out.length = 20 ∧
    Numeral lower 10 (-(2 ^ 63)) out := by
  obtain ⟨out, hOut, hNumeral⟩ := (printint_numeral (BitVec.intMin 64) (.inl rfl) true).1
  refine ⟨out, hOut, ?_, hNumeral⟩
  have hRun : Kernel.printint (BitVec.intMin 64) 10 true = .ok [45, 57, 50, 50, 51, 51, 55, 50, 48, 51, 54, 56, 53, 52, 55, 55, 53, 56, 48, 56] := by
    decide +kernel
  rw [Except.ok.inj (hOut.symm.trans hRun)]
  rfl

/-! ## The two interpreters -/

/-- `fmt[i]`. -/
def fmtAt (fmt : List UInt8) (i : Nat) : Except Fault UInt8 :=
  match (fmt ++ [0])[i]? with
  | some c => .ok c
  | none => .error .format

-- c1 = c2 = 0; if(c0) c1 = fmt[i+1] & 0xff; if(c1) c2 = fmt[i+2] & 0xff;
def lookahead (fmt : List UInt8) (i : Nat) (c0 : UInt8) : Except Fault (UInt8 × UInt8) := do
  let c1 ← if c0 ≠ 0 then fmtAt fmt (i + 1) else pure 0
  let c2 ← if c1 ≠ 0 then fmtAt fmt (i + 2) else pure 0
  return (c1, c2)

-- the values of va_arg(ap, int) and va_arg(ap, uint32), as the long long that printint takes
def argInt (arg : BitVec 64) : BitVec 64 := (arg.truncate 32).signExtend 64
def argUint32 (arg : BitVec 64) : BitVec 64 := (arg.truncate 32).zeroExtend 64

/-- The string for `%s`, where 0 stands for "(null)". -/
def argStr (str : BitVec 64 → List UInt8) (arg : BitVec 64) : List UInt8 :=
  if arg = 0 then [40, 110, 117, 108, 108, 41] else str arg

/-- What a directive prints, by how much it advances `i`, and how many arguments it takes. -/
abbrev Effect : Type := List UInt8 × Nat × Nat

section

variable (fmt : List UInt8) (args : Nat → BitVec 64) (str : BitVec 64 → List UInt8)

def Kernel.directive (arg : BitVec 64) (c0 c1 : UInt8) : Except Fault Effect :=
  if c0 = 100 then return (← Kernel.printint (argInt arg) 10 true, 0, 1)
  else if c0 = 108 ∧ c1 = 100 then return (← Kernel.printint arg 10 true, 1, 1)
  else if c0 = 120 then return (← Kernel.printint (argInt arg) 16 false, 0, 1)
  else if c0 = 112 then return (printptr lower arg, 0, 1)
  else if c0 = 115 then return (argStr str arg, 0, 1)
  else if c0 = 37 then return ([37], 0, 0)
  else return ([37, c0], 0, 0)

def Kernel.printfLoop : Nat → Nat → Nat → Except Fault (List UInt8 × Nat)
  | 0, _, _ => .error .fuel
  | fuel + 1, i, n => do
    let cx ← fmtAt fmt i
    if cx = 0 then return ([], n)
    else if cx ≠ 37 then
      let (out, n) ← Kernel.printfLoop fuel (i + 1) n
      return (cx :: out, n)
    else
      let i := i + 1
      let c0 ← fmtAt fmt i
      let (c1, _) ← lookahead fmt i c0
      let (text, skip, used) ← Kernel.directive str (args n) c0 c1
      let (out, n) ← Kernel.printfLoop fuel (i + skip + 1) (n + used)
      return (text ++ out, n)

/-- The bytes that `uartputc_sync` writes to THR. -/
def uartputcSync (c : UInt8) : List UInt8 := if c = 10 then [13, 10] else [c]

/-- `printf` of the kernel: the bytes written to THR, and the number of arguments taken. -/
def Kernel.printf : Except Fault (List UInt8 × Nat) := do
  let (out, n) ← Kernel.printfLoop fmt args str (fmt.length + 1) 0 0
  return (out.flatMap uartputcSync, n)

def User.directive (arg : BitVec 64) (c0 c1 c2 : UInt8) : Except Fault Effect :=
  if c0 = 100 then return (← User.printint (argInt arg) 10 true, 0, 1)
  else if c0 = 108 ∧ c1 = 100 then return (← User.printint arg 10 true, 1, 1)
  else if c0 = 108 ∧ c1 = 108 ∧ c2 = 100 then return (← User.printint arg 10 true, 2, 1)
  else if c0 = 117 then return (← User.printint (argUint32 arg) 10 false, 0, 1)
  else if c0 = 108 ∧ c1 = 117 then return (← User.printint arg 10 false, 1, 1)
  else if c0 = 108 ∧ c1 = 108 ∧ c2 = 117 then return (← User.printint arg 10 false, 2, 1)
  else if c0 = 120 then return (← User.printint (argUint32 arg) 16 false, 0, 1)
  else if c0 = 108 ∧ c1 = 120 then return (← User.printint arg 16 false, 1, 1)
  else if c0 = 108 ∧ c1 = 108 ∧ c2 = 120 then return (← User.printint arg 16 false, 2, 1)
  else if c0 = 112 then return (printptr upper arg, 0, 1)
  else if c0 = 99 then return ([UInt8.ofBitVec (arg.truncate 8)], 0, 1)
  else if c0 = 115 then return (argStr str arg, 0, 1)
  else if c0 = 37 then return ([37], 0, 0)
  else return ([37, c0], 0, 0)

/-- The loop of `vprintf`; `state` says whether a `%` has been read. -/
def User.vprintfLoop : Nat → Nat → Bool → Nat → Except Fault (List UInt8 × Nat)
  | 0, _, _, _ => .error .fuel
  | fuel + 1, i, state, n => do
    let c0 ← fmtAt fmt i
    if c0 = 0 then return ([], n)
    else if state = false then
      if c0 = 37 then User.vprintfLoop fuel (i + 1) true n
      else
        let (out, n) ← User.vprintfLoop fuel (i + 1) false n
        return (c0 :: out, n)
    else
      let (c1, c2) ← lookahead fmt i c0
      let (text, skip, used) ← User.directive str (args n) c0 c1 c2
      let (out, n) ← User.vprintfLoop fuel (i + skip + 1) false (n + used)
      return (text ++ out, n)

/-- `vprintf` of the library: the bytes written, and the number of arguments taken. -/
def User.vprintf : Except Fault (List UInt8 × Nat) := User.vprintfLoop fmt args str (fmt.length + 1) 0 false 0

end

/-! ## Reading the format -/

section

variable {pre rest : List UInt8} {c : UInt8}

lemma fmtAt_nil : fmtAt pre pre.length = .ok 0 := by simp [fmtAt]

lemma fmtAt_cons : fmtAt (pre ++ c :: rest) pre.length = .ok c := by simp [fmtAt]

lemma fmtAt_behind : fmtAt pre (pre.length + 1) = .error .format := by simp [fmtAt]

lemma fmtAt_next (pre rest : List UInt8) (c : UInt8) : fmtAt (pre ++ c :: rest) (pre.length + 1) = .ok (rest.headD 0) := by
  cases rest <;> simp [fmtAt]

lemma lookahead_cons (pre rest : List UInt8) (hc : c ≠ 0) :
    ∃ c2, lookahead (pre ++ c :: rest) pre.length c = .ok (rest.headD 0, c2) := by
  unfold lookahead
  rw [if_pos hc, fmtAt_next]
  dsimp only [bind, Except.bind]
  split
  · rename_i hNext
    cases rest with
    | nil => exact absurd rfl hNext
    | cons c1 rest =>
      have hAfter := fmtAt_next (pre ++ [c]) rest c1
      rw [length_append, append_assoc] at hAfter
      refine ⟨rest.headD 0, ?_⟩
      rw [show pre.length + 2 = pre.length + [c].length + 1 from rfl]
      rw [show pre ++ c :: c1 :: rest = pre ++ ([c] ++ c1 :: rest) from rfl, hAfter]
      rfl
  · exact ⟨0, rfl⟩

end

section

variable (args : Nat → BitVec 64) (str : BitVec 64 → List UInt8) (pre rest : List UInt8) (fuel n : Nat) {c : UInt8}

lemma kernel_end : Kernel.printfLoop pre args str (fuel + 1) pre.length n = .ok ([], n) := by
  rw [Kernel.printfLoop, fmtAt_nil]
  rfl

lemma kernel_char (hc : c ≠ 0) (hPercent : c ≠ 37) : Kernel.printfLoop (pre ++ c :: rest) args str (fuel + 1) pre.length n =
    (Kernel.printfLoop (pre ++ c :: rest) args str fuel (pre.length + 1) n >>= fun r => .ok (c :: r.1, r.2)) := by
  rw [Kernel.printfLoop, fmtAt_cons]
  dsimp only [bind, Except.bind]
  rw [if_neg hc, if_pos hPercent]
  rfl

lemma kernel_directive (hc : c ≠ 0) : Kernel.printfLoop (pre ++ 37 :: c :: rest) args str (fuel + 1) pre.length n =
    (Kernel.directive str (args n) c (rest.headD 0) >>= fun e =>
      Kernel.printfLoop (pre ++ 37 :: c :: rest) args str fuel (pre.length + 1 + e.2.1 + 1) (n + e.2.2) >>= fun r =>
        .ok (e.1 ++ r.1, r.2)) := by
  obtain ⟨c2, hAhead⟩ := lookahead_cons (pre ++ [37]) rest hc
  rw [length_append, append_assoc] at hAhead
  change lookahead (pre ++ 37 :: c :: rest) (pre.length + 1) c = _ at hAhead
  rw [Kernel.printfLoop, fmtAt_cons]
  dsimp only [bind, Except.bind]
  rw [if_neg (by decide), if_neg (by decide), fmtAt_next]
  dsimp only [List.headD_cons]
  rw [hAhead]
  rfl

lemma kernel_directive_ok (arg : BitVec 64) (c0 c1 : UInt8) : ∃ text skip used,
    Kernel.directive str arg c0 c1 = .ok (text, skip, used) ∧ (skip = 0 ∨ skip = 1 ∧ c1 = 100) := by
  have hPrint : ∀ (xx : BitVec 64) {base : Nat}, base = 10 ∨ base = 16 → ∀ sign, ∃ out, Kernel.printint xx base sign = .ok out := by
    intro xx base hBase sign
    obtain ⟨ds, -, -, -, -, hDigits⟩ := printint_digits xx hBase sign
    exact ⟨_, hDigits lower⟩
  unfold Kernel.directive
  split_ifs with h1 h2
  · obtain ⟨out, hOut⟩ := hPrint (argInt arg) (.inl rfl) true
    exact ⟨out, 0, 1, by rw [hOut]; rfl, .inl rfl⟩
  · obtain ⟨out, hOut⟩ := hPrint arg (.inl rfl) true
    exact ⟨out, 1, 1, by rw [hOut]; rfl, .inr ⟨rfl, h2.2⟩⟩
  · obtain ⟨out, hOut⟩ := hPrint (argInt arg) (.inr rfl) false
    exact ⟨out, 0, 1, by rw [hOut]; rfl, .inl rfl⟩
  all_goals exact ⟨_, _, _, rfl, .inl rfl⟩

/-- Every `%` that begins a directive has a character after it. -/
def closed : List UInt8 → Bool
  | [] => true
  | [c] => c ≠ 37
  | c :: c0 :: rest => if c = 37 then closed rest else closed (c0 :: rest)

lemma closed_cons {rest : List UInt8} (hc : c ≠ 37) : closed (c :: rest) = closed rest := by
  cases rest with
  | nil => simpa [closed] using hc
  | cons c0 rest => rw [closed, if_neg hc]

lemma kernel_reads {rest : List UInt8} : ∀ (pre : List UInt8) {fuel : Nat} (n : Nat), (∀ c ∈ rest, c ≠ 0) → rest.length < fuel →
    (closed rest = true → ∃ r, Kernel.printfLoop (pre ++ rest) args str fuel pre.length n = .ok r) ∧
    (closed rest = false → Kernel.printfLoop (pre ++ rest) args str fuel pre.length n = .error .format) := by
  induction hLen : rest.length using Nat.strong_induction_on generalizing rest with
  | _ k ih =>
  subst hLen
  intro pre fuel n hNul hFuel
  obtain ⟨fuel, rfl⟩ := Nat.exists_eq_succ_of_ne_zero (Nat.ne_zero_of_lt hFuel)
  cases rest with
  | nil =>
    rw [List.append_nil, kernel_end]
    exact ⟨fun _ => ⟨_, rfl⟩, fun h => Bool.noConfusion h⟩
  | cons c rest =>
    have hc := hNul c List.mem_cons_self
    rw [length_cons] at hFuel
    by_cases hPercent : c = 37
    · subst hPercent
      cases rest with
      | nil =>
        -- the NUL is taken for the character of a directive
        obtain ⟨fuel, rfl⟩ := Nat.exists_eq_succ_of_ne_zero (Nat.ne_zero_of_lt (Nat.lt_of_succ_lt_succ hFuel))
        refine ⟨fun h => Bool.noConfusion h, fun _ => ?_⟩
        have hBehind := @fmtAt_behind (pre ++ [37])
        rw [length_append] at hBehind
        change fmtAt (pre ++ [37]) (pre.length + 1 + 1) = _ at hBehind
        rw [Kernel.printfLoop, fmtAt_cons]
        dsimp only [bind, Except.bind]
        rw [if_neg (by decide), if_neg (by decide), fmtAt_next]
        change (Kernel.printfLoop (pre ++ [37]) args str (fuel + 1) (pre.length + 1 + 1) n >>= fun r => _) = _
        rw [Kernel.printfLoop, hBehind]
        rfl
      | cons c rest =>
        rw [kernel_directive args str pre rest fuel n (hNul c (by simp))]
        obtain ⟨text, skip, used, hText, hSkip⟩ := kernel_directive_ok str (args n) c (rest.headD 0)
        rw [hText]
        have hClosed : closed (37 :: c :: rest) = closed (rest.drop skip) := by
          rw [closed, if_pos rfl]
          rcases hSkip with rfl | ⟨rfl, hNext⟩
          · rfl
          · cases rest with
            | nil => cases hNext
            | cons c1 rest => exact closed_cons (by rw [show c1 = 100 from hNext]; decide)
        have hPos : pre.length + 1 + skip + 1 = (pre ++ 37 :: c :: rest.take skip).length ∧ (rest.drop skip).length < fuel := by
          rw [length_cons] at hFuel
          have hTake : (rest.take skip).length = skip := by
            rcases hSkip with rfl | ⟨rfl, hNext⟩
            · simp
            · cases rest with
              | nil => cases hNext
              | cons c1 rest => simp
          simp only [length_append, length_cons, List.length_drop, hTake]
          omega
        obtain ⟨hOk, hBad⟩ := ih _ (by simp; omega) rfl (pre ++ 37 :: c :: rest.take skip) (n + used)
          (fun c hc => hNul c (by simp [List.mem_of_mem_drop hc])) hPos.2
        rw [append_assoc, List.cons_append, List.cons_append, List.take_append_drop, ← hPos.1] at hOk hBad
        rw [hClosed]
        constructor
        · intro h
          obtain ⟨r, hr⟩ := hOk h
          exact ⟨(text ++ r.1, r.2), by dsimp only [bind, Except.bind]; rw [hr]⟩
        · intro h
          dsimp only [bind, Except.bind]
          rw [hBad h]
    · rw [kernel_char args str pre rest fuel n hc hPercent]
      obtain ⟨hOk, hBad⟩ := ih _ (by simp) rfl (pre ++ [c]) n (fun c hc => hNul c (List.mem_cons_of_mem _ hc)) (by omega : _ < fuel)
      have hSplit : pre ++ [c] ++ rest = pre ++ c :: rest ∧ (pre ++ [c]).length = pre.length + 1 := by simp
      rw [hSplit.1, hSplit.2] at hOk hBad
      rw [closed_cons hPercent]
      constructor
      · intro h
        obtain ⟨r, hr⟩ := hOk h
        exact ⟨(c :: r.1, r.2), by rw [hr]; rfl⟩
      · intro h
        rw [hBad h]
        rfl

/-- The kernel's `printf` reads behind the NUL exactly if the format ends in a `%` that begins a directive. -/
theorem printf_reads_format {fmt : List UInt8} (hNul : ∀ c ∈ fmt, c ≠ 0) :
    (closed fmt = true → ∃ r, Kernel.printf fmt args str = .ok r) ∧
    (closed fmt = false → Kernel.printf fmt args str = .error .format) := by
  obtain ⟨hOk, hBad⟩ := kernel_reads args str [] 0 hNul (Nat.lt_succ_self _)
  constructor
  · intro h
    obtain ⟨r, hr⟩ := hOk h
    exact ⟨(r.1.flatMap uartputcSync, r.2), by unfold Kernel.printf; rw [show Kernel.printfLoop fmt args str _ 0 0 = _ from hr]; rfl⟩
  · intro h
    unfold Kernel.printf
    rw [show Kernel.printfLoop fmt args str _ 0 0 = _ from hBad h]
    rfl

end

theorem printf_reads_format_partial : ∃ r, Kernel.printf [37, 100, 37, 108] (fun _ => 0) (fun _ => []) = .ok r :=
  (printf_reads_format _ _ (by simp)).1 rfl

/-- The format "%". -/
theorem printf_lone_percent : Kernel.printf [37] (fun _ => 0) (fun _ => []) = .error .format := rfl

/-! ## Agreement -/

/-- The same character, up to the case of a hexadecimal digit. -/
def SameChar (a b : UInt8) : Prop := a = b ∨ ∃ d < 16, a = lower.getD d 0 ∧ b = upper.getD d 0

inductive Directive where
  | int
  | long
  | hex
  | ptr
  | str
  | percent
  deriving DecidableEq

/-- The characters behind the `%`. -/
def Directive.chars : Directive → UInt8 × List UInt8
  | .int => (100, [])
  | .long => (108, [100])
  | .hex => (120, [])
  | .ptr => (112, [])
  | .str => (115, [])
  | .percent => (37, [])

def Directive.used : Directive → Nat
  | .percent => 0
  | _ => 1

/-- A part of a format string: an ordinary character or a directive. -/
inductive Item where
  | char (c : {c : UInt8 // c ≠ 0 ∧ c ≠ 37})
  | directive (d : Directive)

def Item.text : Item → List UInt8
  | .char c => [c.val]
  | .directive d => 37 :: d.chars.1 :: d.chars.2

def render (items : List Item) : List UInt8 := items.flatMap Item.text

def HexNonneg (args : Nat → BitVec 64) : Nat → List Item → Prop
  | _, [] => True
  | n, .char _ :: items => HexNonneg args n items
  | n, .directive d :: items => (d = .hex → (args n).getLsbD 31 = false) ∧ HexNonneg args (n + d.used) items

section

variable (args : Nat → BitVec 64) (str : BitVec 64 → List UInt8)

lemma SameChar.refl (l : List UInt8) : List.Forall₂ SameChar l l := List.forall₂_same.mpr fun _ _ => .inl rfl

/-- The output of the kernel is no shorter, and the two agree exactly under the condition. -/
def AgreeIff (cond : Prop) (ks us : List UInt8) : Prop :=
  us.length ≤ ks.length ∧ (cond → List.Forall₂ SameChar ks us) ∧ (ks.length = us.length → cond)

lemma AgreeIff.of_same {cond : Prop} {ks us : List UInt8} (hCond : cond) (h : List.Forall₂ SameChar ks us) : AgreeIff cond ks us :=
  ⟨h.length_eq.ge, fun _ => h, fun _ => hCond⟩

lemma AgreeIff.append {c d : Prop} {ks us ks' us' : List UInt8} (h : AgreeIff c ks us) (h' : AgreeIff d ks' us') :
    AgreeIff (c ∧ d) (ks ++ ks') (us ++ us') := by
  obtain ⟨hLe, hSame, hCond⟩ := h
  obtain ⟨hLe', hSame', hCond'⟩ := h'
  simp only [AgreeIff, length_append]
  refine ⟨by omega, fun hBoth => List.rel_append (hSame hBoth.1) (hSame' hBoth.2), fun hLen => ?_⟩
  exact ⟨hCond (by omega), hCond' (by omega)⟩

/-- A numeral below `16 ^ 8` has at most 8 digits, a larger one has more. -/
lemma hex_length (xx : BitVec 64) : ∃ l, (∀ digits, ∃ out, printint digits xx 16 false = .ok out ∧ out.length = l) ∧
    (xx.toNat < 16 ^ 8 → l ≤ 8) ∧ (16 ^ 8 ≤ xx.toNat → 8 < l) := by
  obtain ⟨ds, hNe, hDigits, hLast, hValue, hPrint⟩ := printint_digits xx (.inr rfl) false
  have hShown : Nat.ofDigits 16 ds = xx.toNat := hValue.trans (Int.natAbs_natCast _)
  refine ⟨ds.length, fun digits => ⟨_, hPrint digits, ?_⟩, fun hSmall => ?_, fun hBig => ?_⟩
  · rw [if_neg (by simp [shown])]
    simp
  · by_cases hZero : ds.getLast hNe = 0
    · rw [hLast (by rw [List.getLast?_eq_getLast_of_ne_nil hNe, hZero])]
      decide
    · have hPow := Nat.pow_length_le_mul_ofDigits hNe hZero (b := 14)
      have hLt : 16 ^ ds.length < 16 ^ 9 := by
        rw [show 14 + 2 = 16 from rfl, hShown] at hPow
        omega
      exact Nat.le_of_lt_succ ((Nat.pow_lt_pow_iff_right (by decide)).mp hLt)
  · have hPow := Nat.ofDigits_lt_base_pow_length (by decide : 1 < 16) hDigits
    rw [hShown] at hPow
    exact (Nat.pow_lt_pow_iff_right (by decide)).mp (hBig.trans_lt hPow)

lemma printint_same (xx : BitVec 64) {base : Nat} (hBase : base = 10 ∨ base = 16) (sign : Bool) :
    ∃ ks us, Kernel.printint xx base sign = .ok ks ∧ User.printint xx base sign = .ok us ∧ List.Forall₂ SameChar ks us := by
  obtain ⟨ds, -, hDigits, -, -, hPrint⟩ := printint_digits xx hBase sign
  refine ⟨_, _, hPrint lower, hPrint upper, List.rel_append (SameChar.refl _) (List.forall₂_reverse_iff.mpr ?_)⟩
  rw [List.forall₂_map_left_iff, List.forall₂_map_right_iff]
  exact List.forall₂_same.mpr fun d hd => .inr ⟨d, by have := hDigits d hd; omega, rfl, rfl⟩

lemma ptrLoop_same (n : Nat) (x : BitVec 64) : List.Forall₂ SameChar (ptrLoop lower n x) (ptrLoop upper n x) := by
  induction n generalizing x with
  | zero => exact .nil
  | succ n ih =>
    refine .cons (.inr ⟨_, ?_, rfl, rfl⟩) (ih _)
    have hLt := x.isLt
    rw [BitVec.toNat_ushiftRight, Nat.shiftRight_eq_div_pow]
    omega

lemma argUint32_eq {arg : BitVec 64} (h : arg.getLsbD 31 = false) : argUint32 arg = argInt arg := by
  have hMsb : (arg.truncate 32).msb = false := by
    rw [BitVec.msb_eq_getLsbD_last, BitVec.getLsbD_setWidth, h]
    rfl
  exact (BitVec.signExtend_eq_setWidth_of_msb_false hMsb).symm

lemma argInt_negative {arg : BitVec 64} (h : arg.getLsbD 31 = true) : 16 ^ 8 ≤ (argInt arg).toNat := by
  have hMsb : (arg.truncate 32).msb = true := by
    rw [BitVec.msb_eq_getLsbD_last, BitVec.getLsbD_setWidth, h]
    rfl
  have hTop : (argInt arg).getLsbD 63 = true := by
    rw [argInt, BitVec.getLsbD_signExtend]
    simp [hMsb]
  have hGe := BitVec.toNat_ge_of_msb_true (BitVec.msb_eq_getLsbD_last _ ▸ hTop)
  omega

lemma hex_agree (arg : BitVec 64) : ∃ ks us, Kernel.printint (argInt arg) 16 false = .ok ks ∧
    User.printint (argUint32 arg) 16 false = .ok us ∧ AgreeIff (arg.getLsbD 31 = false) ks us := by
  cases h : arg.getLsbD 31 with
  | false =>
    obtain ⟨ks, us, hKernel, hUser, hSame⟩ := printint_same (argInt arg) (.inr rfl) false
    exact ⟨ks, us, hKernel, argUint32_eq h ▸ hUser, .of_same rfl hSame⟩
  | true =>
    obtain ⟨k, hKernel, -, hMany⟩ := hex_length (argInt arg)
    obtain ⟨l, hUser, hFew, -⟩ := hex_length (argUint32 arg)
    obtain ⟨ks, hks, rfl⟩ := hKernel lower
    obtain ⟨us, hus, rfl⟩ := hUser upper
    have hLt : us.length < ks.length := by
      have hLong := hMany (argInt_negative h)
      have hShort := hFew (by rw [argUint32, BitVec.toNat_setWidth]; omega)
      omega
    exact ⟨ks, us, hks, hus, ⟨hLt.le, fun hFalse => (by cases hFalse), fun hEq => absurd hEq hLt.ne'⟩⟩

lemma directive_agree (d : Directive) (arg : BitVec 64) (rest : List UInt8) (c2 : UInt8) :
    ∃ ks us, Kernel.directive str arg d.chars.1 ((d.chars.2 ++ rest).headD 0) = .ok (ks, d.chars.2.length, d.used) ∧
      User.directive str arg d.chars.1 ((d.chars.2 ++ rest).headD 0) c2 = .ok (us, d.chars.2.length, d.used) ∧
      AgreeIff (d = .hex → arg.getLsbD 31 = false) ks us := by
  cases d with
  | int =>
    obtain ⟨ks, us, hKernel, hUser, hSame⟩ := printint_same (argInt arg) (.inl rfl) true
    refine ⟨ks, us, ?_, ?_, .of_same (fun hHex => by cases hHex) hSame⟩
    · change (Kernel.printint (argInt arg) 10 true >>= fun out => .ok (out, 0, 1)) = _
      rw [hKernel]
      rfl
    · change (User.printint (argInt arg) 10 true >>= fun out => .ok (out, 0, 1)) = _
      rw [hUser]
      rfl
  | long =>
    obtain ⟨ks, us, hKernel, hUser, hSame⟩ := printint_same arg (.inl rfl) true
    refine ⟨ks, us, ?_, ?_, .of_same (fun hHex => by cases hHex) hSame⟩
    · change (Kernel.printint arg 10 true >>= fun out => .ok (out, 1, 1)) = _
      rw [hKernel]
      rfl
    · change (User.printint arg 10 true >>= fun out => .ok (out, 1, 1)) = _
      rw [hUser]
      rfl
  | hex =>
    obtain ⟨ks, us, hKernel, hUser, hLe, hSame, hCond⟩ := hex_agree arg
    refine ⟨ks, us, ?_, ?_, hLe, fun hHex => hSame (hHex rfl), fun hLen _ => hCond hLen⟩
    · change (Kernel.printint (argInt arg) 16 false >>= fun out => .ok (out, 0, 1)) = _
      rw [hKernel]
      rfl
    · change (User.printint (argUint32 arg) 16 false >>= fun out => .ok (out, 0, 1)) = _
      rw [hUser]
      rfl
  | ptr =>
    refine ⟨printptr lower arg, printptr upper arg, rfl, rfl, .of_same (fun hHex => by cases hHex) ?_⟩
    exact .cons (.inl rfl) (.cons (.inl rfl) (ptrLoop_same 16 arg))
  | str => exact ⟨argStr str arg, argStr str arg, rfl, rfl, .of_same (fun hHex => by cases hHex) (SameChar.refl _)⟩
  | percent => exact ⟨[37], [37], rfl, rfl, .of_same (fun hHex => by cases hHex) (SameChar.refl _)⟩

variable (pre rest : List UInt8) (fuel n : Nat) {c : UInt8}

lemma user_char (hc : c ≠ 0) (hPercent : c ≠ 37) : User.vprintfLoop (pre ++ c :: rest) args str (fuel + 1) pre.length false n =
    (User.vprintfLoop (pre ++ c :: rest) args str fuel (pre.length + 1) false n >>= fun r => .ok (c :: r.1, r.2)) := by
  rw [User.vprintfLoop, fmtAt_cons]
  dsimp only [bind, Except.bind]
  rw [if_neg hc, if_pos rfl, if_neg hPercent]
  rfl

lemma user_directive (hc : c ≠ 0) : ∃ c2, User.vprintfLoop (pre ++ 37 :: c :: rest) args str (fuel + 2) pre.length false n =
    (User.directive str (args n) c (rest.headD 0) c2 >>= fun e =>
      User.vprintfLoop (pre ++ 37 :: c :: rest) args str fuel (pre.length + 1 + e.2.1 + 1) false (n + e.2.2) >>= fun r =>
        .ok (e.1 ++ r.1, r.2)) := by
  obtain ⟨c2, hAhead⟩ := lookahead_cons (pre ++ [37]) rest hc
  rw [length_append, append_assoc] at hAhead
  change lookahead (pre ++ 37 :: c :: rest) (pre.length + 1) c = _ at hAhead
  refine ⟨c2, ?_⟩
  rw [User.vprintfLoop, fmtAt_cons]
  dsimp only [bind, Except.bind]
  rw [if_neg (by decide), if_pos rfl, if_pos rfl, User.vprintfLoop, fmtAt_next]
  dsimp only [bind, Except.bind, List.headD_cons]
  rw [if_neg hc, if_neg (by decide), hAhead]
  rfl

lemma loops_agree (items : List Item) : ∀ (pre : List UInt8) (n kfuel ufuel : Nat),
    (render items).length < kfuel → (render items).length < ufuel →
    ∃ ks us n', Kernel.printfLoop (pre ++ render items) args str kfuel pre.length n = .ok (ks, n') ∧
      User.vprintfLoop (pre ++ render items) args str ufuel pre.length false n = .ok (us, n') ∧
      AgreeIff (HexNonneg args n items) ks us := by
  induction items with
  | nil =>
    intro pre n kfuel ufuel hk hu
    obtain ⟨kfuel, rfl⟩ := Nat.exists_eq_succ_of_ne_zero (Nat.ne_zero_of_lt hk)
    obtain ⟨ufuel, rfl⟩ := Nat.exists_eq_succ_of_ne_zero (Nat.ne_zero_of_lt hu)
    rw [show render [] = [] from rfl, List.append_nil]
    refine ⟨[], [], n, kernel_end args str pre kfuel n, ?_, .of_same trivial .nil⟩
    rw [User.vprintfLoop, fmtAt_nil]
    rfl
  | cons item items ih =>
    intro pre n kfuel ufuel hk hu
    obtain ⟨kfuel, rfl⟩ := Nat.exists_eq_succ_of_ne_zero (Nat.ne_zero_of_lt hk)
    cases item with
    | char c =>
      obtain ⟨ufuel, rfl⟩ := Nat.exists_eq_succ_of_ne_zero (Nat.ne_zero_of_lt hu)
      obtain ⟨ks, us, n', hKernel, hUser, hLe, hSame, hCond⟩ := ih (pre ++ [c.val]) n kfuel ufuel (Nat.lt_of_succ_lt_succ hk)
        (Nat.lt_of_succ_lt_succ hu)
      have hSplit : pre ++ [c.val] ++ render items = pre ++ c.val :: render items ∧ (pre ++ [c.val]).length = pre.length + 1 := by simp
      rw [hSplit.1, hSplit.2] at hKernel hUser
      refine ⟨c.val :: ks, c.val :: us, n', ?_, ?_, Nat.succ_le_succ hLe, fun hHex => .cons (.inl rfl) (hSame hHex), fun hLen => ?_⟩
      · exact (kernel_char args str pre (render items) kfuel n c.2.1 c.2.2).trans (by rw [hKernel]; rfl)
      · exact (user_char args str pre (render items) ufuel n c.2.1 c.2.2).trans (by rw [hUser]; rfl)
      · exact hCond (Nat.succ.inj hLen)
    | directive d =>
      have hText : render (.directive d :: items) = 37 :: d.chars.1 :: (d.chars.2 ++ render items) := rfl
      rw [hText] at hk hu ⊢
      simp only [length_cons, length_append] at hk hu
      obtain ⟨ufuel, rfl⟩ : ∃ u, ufuel = u + 2 := ⟨ufuel - 2, by omega⟩
      have hc : d.chars.1 ≠ 0 := by cases d <;> decide
      obtain ⟨c2, hUserStep⟩ := user_directive args str pre (d.chars.2 ++ render items) ufuel n hc
      obtain ⟨ks, us, hKernel, hUser, hAgree⟩ := directive_agree str d (args n) (render items) c2
      obtain ⟨ks', us', n', hKernel', hUser', hAgree'⟩ := ih (pre ++ 37 :: d.chars.1 :: d.chars.2) (n + d.used) kfuel ufuel
        (by omega) (by omega)
      have hSplit : pre ++ 37 :: d.chars.1 :: d.chars.2 ++ render items = pre ++ 37 :: d.chars.1 :: (d.chars.2 ++ render items) ∧
          (pre ++ 37 :: d.chars.1 :: d.chars.2).length = pre.length + 1 + d.chars.2.length + 1 := by
        simp
        omega
      rw [hSplit.1, hSplit.2] at hKernel' hUser'
      refine ⟨ks ++ ks', us ++ us', n', ?_, ?_, hAgree.append hAgree'⟩
      · rw [kernel_directive args str pre _ kfuel n hc, hKernel]
        change (Kernel.printfLoop _ args str kfuel _ _ >>= fun r => _) = _
        rw [hKernel']
        rfl
      · rw [hUserStep, hUser]
        change (User.vprintfLoop _ args str ufuel _ _ _ >>= fun r => _) = _
        rw [hUser']
        rfl

end

lemma length_flatMap_uartputcSync (ks : List UInt8) :
    (ks.flatMap uartputcSync).length = ks.length + (ks.flatMap uartputcSync).count 10 := by
  induction ks with
  | nil => rfl
  | cons c ks ih =>
    rw [List.flatMap_cons, length_append, List.count_append, ih]
    unfold uartputcSync
    split
    · simp
      omega
    · rename_i hc
      simp [hc]
      omega

/-- The two functions take the same arguments and print the same characters, up to the case of hexadecimal digits and
the newlines that `uartputc_sync` expands, exactly if no argument of a `%x` is negative. -/
theorem printf_agrees (items : List Item) (args : Nat → BitVec 64) (str : BitVec 64 → List UInt8) :
    (∃ ks us n, Kernel.printf (render items) args str = .ok (ks.flatMap uartputcSync, n) ∧
      User.vprintf (render items) args str = .ok (us, n) ∧ List.Forall₂ SameChar ks us) ↔ HexNonneg args 0 items := by
  obtain ⟨ks, us, n, hLoop, hUser, -, hSame, hCond⟩ := loops_agree args str items [] 0 _ _ (Nat.lt_succ_self _) (Nat.lt_succ_self _)
  have hKernel : Kernel.printf (render items) args str = .ok (ks.flatMap uartputcSync, n) := by
    unfold Kernel.printf
    rw [show Kernel.printfLoop (render items) args str _ 0 0 = _ from hLoop]
    rfl
  constructor
  · -- the output tells how many characters the kernel has printed before the newlines are expanded
    rintro ⟨ks', us', n', hKernel', hUser', hSame'⟩
    have hOut := congrArg Prod.fst (Except.ok.inj (hKernel.symm.trans hKernel'))
    have hUs : us = us' := congrArg Prod.fst (Except.ok.inj (hUser.symm.trans hUser'))
    have hLen := length_flatMap_uartputcSync ks
    have hLen' := length_flatMap_uartputcSync ks'
    have hEq := hSame'.length_eq
    dsimp only at hOut
    rw [hOut] at hLen
    rw [← hUs] at hEq
    exact hCond (by omega)
  · exact fun hHex => ⟨ks, us, n, hKernel, hUser, hSame hHex⟩

/-- The format "%x" with -1: 16 digits in the kernel, 8 in the library. -/
theorem printf_negative_hex : Kernel.printf [37, 120] (fun _ => -1) (fun _ => []) = .ok (List.replicate 16 102, 1) ∧
    User.vprintf [37, 120] (fun _ => -1) (fun _ => []) = .ok (List.replicate 8 70, 1) := by
  constructor <;> decide +kernel

end Xv6K230.Printf
