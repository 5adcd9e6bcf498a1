import Xv6Kernel.Foundation.Numeral
import Xv6Kernel.Mm.AllocatorRuns
import Xv6Kernel.Process.Undisturbed

/-!
# Numbers on the console

`printint` and `printptr` of printf.c, down to the bytes that reach the UART, and the
numerals that `printint` sends.
-/

namespace Xv6Kernel.Console

open Xv6Kernel.Foundation Xv6Kernel.Mm Xv6Kernel.Process

variable {H : Type}

abbrev Byte := BitVec 8

def ascii (c : Char) : Byte := BitVec.ofNat 8 c.toNat

def digits : List Byte := "0123456789abcdef".toList.map ascii

/-- `digits[n]`. -/
def digit (n : Nat) : Byte := digits.getD n 0

/-! ## uart.c and console.c -/

def uartPutc (c : Byte) : Code H Unit :=
  write fun k => { k with console := Char.ofNat c.toNat :: k.console }

def backspace : CInt := 0x100

def consputc (c : CInt) : Code H Unit :=
  if c = backspace then do
    uartPutc (ascii '\x08')
    uartPutc (ascii ' ')
    uartPutc (ascii '\x08')
  else
    uartPutc (c.setWidth 8)

/-! ## printint and printptr -/

/-- `buf[i++] = c`, where `buf` has room for 20 bytes and holds `i` of them, the last one
first here. -/
def store (c : Byte) (buf : List Byte) : Option (List Byte) :=
  if buf.length < 20 then some (c :: buf) else none

def digitLoop (base : Word) : Nat → Word → List Byte → Option (List Byte)
  | 0, _, _ => none
  | fuel + 1, x, buf => do
      let buf ← store (digit (x % base).toNat) buf
      if x / base ≠ 0 then digitLoop base fuel (x / base) buf else some buf

/-- What is in `buf` before the last loop of `printint`, if no byte was stored outside;
every round of the first loop stores a byte, so 21 are enough to know. -/
def printintBuf (xx : Word) (base : CInt) (sign : Bool) : Option (List Byte) := do
  let sign := sign && xx.slt 0
  let x := if sign then -xx else xx
  let buf ← digitLoop (base.signExtend 64) 21 x []
  if sign then store (ascii '-') buf else some buf

def printint (xx : Word) (base : CInt) (sign : Bool) : Code H Unit :=
  match printintBuf xx base sign with
  | some buf => Program.forEach buf fun c => consputc (c.setWidth 32)
  | none => Process.panic "printint: a byte is stored outside buf"

def ptrLoop : Nat → Word → Code H Unit
  | 0, _ => pure ()
  | n + 1, x => do
      consputc ((digit (x >>> 60).toNat).setWidth 32)
      ptrLoop n (x <<< 4)

def printptr (x : Word) : Code H Unit := do
  consputc ((ascii '0').setWidth 32)
  consputc ((ascii 'x').setWidth 32)
  ptrLoop 16 x

/-! ## Numerals in bytes -/

def numeralBytes (b n : Nat) : List Byte := (numeral b n).map digit

def signedBytes (b : Nat) (v : Int) : List Byte :=
  if v < 0 then ascii '-' :: numeralBytes b v.natAbs else numeralBytes b v.natAbs

def digitValue (b : Nat) (c : Byte) : Option Nat :=
  if digits.idxOf c < b then some (digits.idxOf c) else none

def parseNat (b : Nat) (s : List Byte) : Option Nat :=
  if s = [] then none else (s.mapM (digitValue b)).map (valueOf b)

/-- The number that a text in base `b` denotes. -/
def parse (b : Nat) (s : List Byte) : Option Int :=
  if s.head? = some (ascii '-') then (parseNat b s.tail).map fun n : Nat => -(n : Int)
  else (parseNat b s).map fun n : Nat => (n : Int)

/-- The digits of a numeral, without its sign. -/
def unsigned (s : List Byte) : List Byte := if s.head? = some (ascii '-') then s.tail else s

structure IsNumeral (b : Nat) (s : List Byte) (v : Int) : Prop where
  denotes : parse b s = some v
  sign : s.head? = some (ascii '-') ↔ v < 0
  lead : (unsigned s).head? = some (ascii '0') → unsigned s = [ascii '0']

/-! ## printint is exact -/

variable {b n : Nat} {buf : List Byte} {c : Byte}

theorem store_eq (hroom : buf.length < 20) : store c buf = some (c :: buf) := if_pos hroom

theorem length_numeral_pos (hb : 2 ≤ b) : 1 ≤ (numeral b n).length :=
  List.length_pos_of_ne_nil (proper_numeral hb n).ne_nil

/-- The loop puts the digits in front, the lowest first, as long as there is room. -/
theorem digitLoop_eq {base x : Word} {fuel : Nat} (hb : 2 ≤ base.toNat)
    (hroom : (numeral base.toNat x.toNat).length + buf.length ≤ 20)
    (hfuel : (numeral base.toNat x.toNat).length ≤ fuel) :
    digitLoop base fuel x buf = some (numeralBytes base.toNat x.toNat ++ buf) := by
  induction fuel generalizing x buf with
  | zero =>
      have hpos := length_numeral_pos (n := x.toNat) hb
      omega
  | succ fuel ih =>
      have hpos := length_numeral_pos (n := x.toNat) hb
      have hstep := numeral_step hb x.toNat
      have hzero : x / base = 0 ↔ x.toNat / base.toNat = 0 := by
        rw [← BitVec.toNat_inj, BitVec.toNat_udiv]
        rfl
      have hstore := store_eq (c := digit (x % base).toNat) (by omega : buf.length < 20)
      simp only [digitLoop, hstore, Option.bind_eq_bind, Option.bind_some]
      by_cases hdiv : x / base = 0
      · rw [if_neg (not_not.mpr hdiv)]
        rw [if_pos (hzero.mp hdiv), List.nil_append] at hstep
        simp [numeralBytes, hstep, BitVec.toNat_umod]
      · rw [if_pos hdiv]
        rw [if_neg (hzero.not.mp hdiv)] at hstep
        have hlength := congrArg List.length hstep
        rw [List.length_append, List.length_singleton] at hlength
        rw [ih (by simp only [BitVec.toNat_udiv, List.length_cons]; omega)
          (by simp only [BitVec.toNat_udiv]; omega)]
        simp [numeralBytes, hstep, BitVec.toNat_umod, BitVec.toNat_udiv]

theorem slt_zero {xx : Word} : xx.slt 0 = true ↔ xx.toInt < 0 := by
  simp [BitVec.slt]

/-- `-xx` modulo 2^64 is the absolute value, also of the smallest number. -/
theorem toNat_neg_of_lt {xx : Word} (hneg : xx.toInt < 0) : (-xx).toNat = xx.toInt.natAbs := by
  have hlt := xx.isLt
  rw [BitVec.toInt_eq_toNat_cond] at hneg ⊢
  rw [BitVec.toNat_neg]
  split at hneg <;> omega

theorem toNat_of_nonneg {xx : Word} (hpos : ¬ xx.toInt < 0) : xx.toNat = xx.toInt.natAbs := by
  have hlt := xx.isLt
  rw [BitVec.toInt_eq_toNat_cond] at hpos ⊢
  split at hpos <;> omega

/-- `printint` reads its argument as a signed or as an unsigned number. -/
def reads (xx : Word) (sign : Bool) : Int := if sign then xx.toInt else xx.toNat

def Base (base : CInt) : Prop := base = 10 ∨ base = 16

theorem Base.two_le {base : CInt} (hbase : Base base) : 2 ≤ base.toNat := by
  rcases hbase with rfl | rfl <;> decide

theorem Base.le_digits {base : CInt} (hbase : Base base) : base.toNat ≤ 16 := by
  rcases hbase with rfl | rfl <;> decide

theorem Base.wide {base : CInt} (hbase : Base base) :
    (base.signExtend 64 : Word).toNat = base.toNat := by
  rcases hbase with rfl | rfl <;> decide

/-- All 64 bits take 20 digits, and a negative number 19 and its sign. -/
theorem Base.length_le {base : CInt} (hbase : Base base) {n : Nat} (hn : n < 2 ^ 64) :
    (numeral base.toNat n).length ≤ 20 ∧
      (n ≤ 2 ^ 63 → (numeral base.toNat n).length ≤ 19) := by
  rw [length_numeral_le hbase.two_le (by decide), length_numeral_le hbase.two_le (by decide)]
  rcases hbase with rfl | rfl
  · simp only [BitVec.reduceToNat]
    omega
  · simp only [BitVec.reduceToNat]
    omega

theorem printintBuf_eq {base : CInt} (hbase : Base base) (xx : Word) (sign : Bool) :
    printintBuf xx base sign = some (signedBytes base.toNat (reads xx sign)) := by
  have hloop : ∀ x : Word, digitLoop (base.signExtend 64) 21 x [] =
      some (numeralBytes base.toNat x.toNat) := by
    intro x
    have hlength := (hbase.length_le x.isLt).1
    rw [← hbase.wide] at hlength ⊢
    have hroom : (numeral (base.signExtend 64 : Word).toNat x.toNat).length +
        ([] : List Byte).length ≤ 20 := hlength
    rw [digitLoop_eq (hbase.wide.symm ▸ hbase.two_le) hroom (hlength.trans (by decide)),
      List.append_nil]
  unfold printintBuf
  simp only [hloop]
  by_cases hneg : sign = true ∧ xx.toInt < 0
  · obtain ⟨rfl, hneg⟩ := hneg
    have hslt := slt_zero.mpr hneg
    have hlength := (hbase.length_le (-xx).isLt).2 (by
      rw [toNat_neg_of_lt hneg]
      have hmin := BitVec.le_toInt xx
      omega)
    have hstore : store (ascii '-') (numeralBytes base.toNat (-xx).toNat) =
        some (ascii '-' :: numeralBytes base.toNat (-xx).toNat) := by
      refine store_eq ?_
      rw [numeralBytes, List.length_map]
      omega
    simp only [hslt, Bool.and_self, if_true, Option.bind_eq_bind, Option.bind_some, hstore]
    rw [toNat_neg_of_lt hneg, signedBytes, reads, if_pos rfl, if_pos hneg]
  · have hfalse : (sign && xx.slt 0) = false := by
      rw [Bool.and_eq_false_iff, ← Bool.not_eq_true, ← Bool.not_eq_true, slt_zero]
      exact not_and_or.mp hneg
    simp only [hfalse, Bool.false_eq_true, if_false, Option.bind_eq_bind, Option.bind_some]
    cases sign with
    | true =>
        have hpos : ¬ xx.toInt < 0 := fun h => hneg ⟨rfl, h⟩
        rw [signedBytes, reads, if_pos rfl, if_neg hpos, toNat_of_nonneg hpos]
    | false =>
        have hpos : ¬ (xx.toNat : Int) < 0 := by omega
        simp only [signedBytes, reads, Bool.false_eq_true, if_false, if_neg hpos, Int.natAbs_natCast]

/-! ## What a numeral denotes -/

theorem idxOf_digit {d : Nat} (hd : d < 16) : digits.idxOf (digit d) = d := by
  revert d
  decide

theorem digit_idxOf {c : Byte} (hc : digits.idxOf c < 16) : digit (digits.idxOf c) = c := by
  have hlength : digits.idxOf c < digits.length := hc
  rw [digit, List.getD_eq_getElem?_getD, List.getElem?_eq_getElem hlength, Option.getD_some,
    List.getElem_idxOf hlength]

theorem digit_ne_minus {d : Nat} (hd : d < 16) : digit d ≠ ascii '-' := by
  revert d
  decide

theorem digit_eq_zero {d : Nat} (hd : d < 16) : digit d = ascii '0' ↔ d = 0 := by
  revert d
  decide

section Numeral

variable (hb : 2 ≤ b) (h16 : b ≤ 16)
include h16

theorem digitValue_digit {d : Nat} (hd : d < b) : digitValue b (digit d) = some d := by
  rw [digitValue, idxOf_digit (hd.trans_le h16), if_pos hd]

theorem digitValue_some {d : Nat} (hd : digitValue b c = some d) : d < b ∧ c = digit d := by
  unfold digitValue at hd
  split at hd
  · next hlt =>
    cases hd
    exact ⟨hlt, (digit_idxOf (hlt.trans_le h16)).symm⟩
  · cases hd

theorem mapM_digits {ds : List Nat} (hds : ∀ d ∈ ds, d < b) :
    (ds.map digit).mapM (digitValue b) = some ds := by
  induction ds with
  | nil => rfl
  | cons d ds ih =>
      simp only [List.map_cons, List.mapM_cons, digitValue_digit h16 (hds d List.mem_cons_self),
        ih fun e he => hds e (List.mem_cons_of_mem d he), Option.bind_eq_bind, Option.bind_some,
        Option.pure_def]

theorem eq_map_digit {s : List Byte} {ds : List Nat} (hs : s.mapM (digitValue b) = some ds) :
    s = ds.map digit ∧ ∀ d ∈ ds, d < b := by
  induction s generalizing ds with
  | nil =>
      cases hs
      exact ⟨rfl, nofun⟩
  | cons c s ih =>
      simp only [List.mapM_cons, Option.bind_eq_bind, Option.bind_eq_some_iff, Option.pure_def,
        Option.some_inj] at hs
      obtain ⟨d, hd, es, hes, rfl⟩ := hs
      obtain ⟨hlt, rfl⟩ := digitValue_some h16 hd
      obtain ⟨rfl, hall⟩ := ih hes
      exact ⟨rfl, fun e he => (List.mem_cons.mp he).elim (fun h => h ▸ hlt) (hall e)⟩

include hb

theorem parseNat_numeral (n : Nat) : parseNat b (numeralBytes b n) = some n := by
  have proper := proper_numeral hb n
  have hne : numeralBytes b n ≠ [] := by simpa [numeralBytes] using proper.ne_nil
  rw [parseNat, if_neg hne, numeralBytes, mapM_digits h16 proper.digit, Option.map_some,
    valueOf_numeral]

theorem numeralBytes_head (n : Nat) : (numeralBytes b n).head? ≠ some (ascii '-') ∧
    ((numeralBytes b n).head? = some (ascii '0') → numeralBytes b n = [ascii '0']) := by
  have proper := proper_numeral hb n
  unfold numeralBytes
  cases hds : numeral b n with
  | nil => exact absurd hds proper.ne_nil
  | cons d ds =>
      have hd : d < 16 := (proper.digit d (by rw [hds]; exact List.mem_cons_self)).trans_le h16
      simp only [List.map_cons, List.head?_cons, ne_eq, Option.some_inj]
      refine ⟨digit_ne_minus hd, fun hzero => ?_⟩
      obtain rfl := (digit_eq_zero hd).mp hzero
      have hone := proper.lead (by rw [hds]; rfl)
      rw [hds] at hone
      rw [(List.cons.inj hone).2]
      rfl

theorem isNumeral_signed (v : Int) : IsNumeral b (signedBytes b v) v := by
  have hparse := parseNat_numeral hb h16 v.natAbs
  obtain ⟨hminus, hlead⟩ := numeralBytes_head hb h16 v.natAbs
  unfold signedBytes
  split
  · next hneg =>
    refine ⟨?_, iff_of_true rfl hneg, hlead⟩
    simp only [parse, List.head?_cons, List.tail_cons, if_true, hparse, Option.map_some,
      Option.some_inj]
    omega
  · next hpos =>
    refine ⟨?_, iff_of_false hminus hpos, ?_⟩
    · simp only [parse, if_neg hminus, hparse, Option.map_some, Option.some_inj]
      omega
    · simp only [unsigned, if_neg hminus]
      exact hlead

/-- Digits without leading zeros are the ones of the number they denote. -/
theorem eq_numeralBytes {s : List Byte} (hs : parseNat b s = some n)
    (hlead : s.head? = some (ascii '0') → s = [ascii '0']) : s = numeralBytes b n := by
  unfold parseNat at hs
  split at hs
  · cases hs
  · next hne =>
    obtain ⟨ds, hds, rfl⟩ := Option.map_eq_some_iff.mp hs
    obtain ⟨rfl, hdigit⟩ := eq_map_digit h16 hds
    have proper : Proper b ds := by
      refine ⟨hdigit, by simpa using hne, fun hhead => ?_⟩
      cases ds with
      | nil => cases hhead
      | cons d ds =>
          cases hhead
          rw [(List.map_eq_nil_iff.mp (List.cons.inj (hlead rfl)).2)]
    rw [numeralBytes, ← proper.eq_numeral hb]

theorem IsNumeral.unique {s : List Byte} {v : Int} (numeral : IsNumeral b s v) :
    s = signedBytes b v := by
  obtain ⟨hdenotes, hsign, hlead⟩ := numeral
  unfold signedBytes
  by_cases hneg : v < 0
  · have hminus := hsign.mpr hneg
    rw [parse, if_pos hminus] at hdenotes
    rw [unsigned, if_pos hminus] at hlead
    obtain ⟨n, hn, rfl⟩ := Option.map_eq_some_iff.mp hdenotes
    rw [if_pos hneg, Int.natAbs_neg, Int.natAbs_natCast, ← eq_numeralBytes hb h16 hn hlead]
    cases s with
    | nil => cases hminus
    | cons c s =>
        cases hminus
        rfl
  · have hminus := hsign.not.mpr hneg
    rw [parse, if_neg hminus] at hdenotes
    rw [unsigned, if_neg hminus] at hlead
    obtain ⟨n, hn, rfl⟩ := Option.map_eq_some_iff.mp hdenotes
    rw [if_neg hneg, Int.natAbs_natCast]
    exact eq_numeralBytes hb h16 hn hlead

end Numeral

/-! ## What reaches the UART -/

def chr (c : Byte) : Char := Char.ofNat c.toNat

section Sends

variable [DecidableEq H] {img : Image} {quiet : Bool} {h : H} {α β ι : Type} {value : α}
  {answer : β} {s t : List Byte}

/-- After the bytes `s` have gone to the UART. -/
def sent (s : List Byte) (w : World H) : World H :=
  w.withKernel { w.kernel with console := (s.map chr).reverse ++ w.kernel.console }

/-- The program answers `value`, and all that it does is to send `s`. -/
def Sends (img : Image) (quiet : Bool) (h : H) (program : Code H α) (value : α)
    (s : List Byte) : Prop :=
  ∀ w : World H, Alone (platform img quiet) h program w (.ok (value, sent s w))

omit [DecidableEq H] in
theorem sent_append (w : World H) : sent t (sent s w) = sent (s ++ t) w := by
  simp [sent, World.withKernel]

theorem Sends.done (value : α) : Sends img quiet h (pure value : Code H α) value [] :=
  fun _ => .done ..

theorem Sends.bind {program : Code H α} {rest : α → Code H β}
    (hprogram : Sends img quiet h program value s)
    (hrest : Sends img quiet h (rest value) answer t) :
    Sends img quiet h (program >>= rest) answer (s ++ t) := by
  intro w
  rw [← sent_append]
  exact (hprogram w).bind (hrest (sent s w))

/-- A program that only sends, and what it answers. -/
theorem Sends.last {program : Code H Unit} (hprogram : Sends img quiet h program () s)
    (value : α) : Sends img quiet h (program >>= fun _ => pure value) value s := by
  rw [← List.append_nil s]
  exact hprogram.bind (.done value)

theorem sends_uartPutc (c : Byte) : Sends img quiet h (uartPutc c) () [c] :=
  fun _ => alone_act _

/-- `consputc` sends the low byte, or wipes out a character. -/
def echoed (c : CInt) : List Byte :=
  if c = backspace then [ascii '\x08', ascii ' ', ascii '\x08'] else [c.setWidth 8]

theorem sends_consputc (c : CInt) : Sends img quiet h (consputc c) () (echoed c) := by
  unfold consputc echoed
  split
  · exact (sends_uartPutc _).bind ((sends_uartPutc _).bind (sends_uartPutc _))
  · exact sends_uartPutc _

theorem echoed_byte (c : Byte) : echoed (c.setWidth 32) = [c] := by
  have hne : (c.setWidth 32 : CInt) ≠ backspace := by
    intro heq
    have hc := c.isLt
    have htoNat := congrArg BitVec.toNat heq
    rw [BitVec.toNat_setWidth_of_le (by decide)] at htoNat
    simp only [backspace, BitVec.reduceToNat] at htoNat
    omega
  rw [echoed, if_neg hne, BitVec.setWidth_setWidth_of_le _ (by decide), BitVec.setWidth_eq]

theorem sends_byte (c : Byte) : Sends img quiet h (consputc (c.setWidth 32)) () [c] := by
  rw [← echoed_byte c]
  exact sends_consputc _

theorem sends_bytes (s : List Byte) :
    Sends img quiet h (Program.forEach s fun c => consputc (c.setWidth 32)) () s := by
  induction s with
  | nil => exact .done ()
  | cons c s ih => exact (sends_byte c).bind ih

theorem sends_printint {base : CInt} (hbase : Base base) (xx : Word) (sign : Bool) :
    Sends img quiet h (printint xx base sign) () (signedBytes base.toNat (reads xx sign)) := by
  rw [printint, printintBuf_eq hbase]
  exact sends_bytes _

/-- The `n` lowest of the digits in base 16. -/
def hexBytes (n : Nat) (x : Word) : List Byte :=
  ((List.range n).reverse.map fun k => digit (x.toNat / 16 ^ k % 16))

theorem sends_ptrLoop (n : Nat) (x : Word) :
    Sends img quiet h (ptrLoop n x) ()
      ((List.range n).map fun k => digit ((x <<< (4 * k)) >>> 60).toNat) := by
  induction n generalizing x with
  | zero => exact .done ()
  | succ n ih =>
      have htail : ((List.range n).map fun k => digit (((x <<< 4) <<< (4 * k)) >>> 60).toNat) =
          (List.range n).map fun k => digit ((x <<< (4 * (k + 1))) >>> 60).toNat := by
        refine List.map_congr_left fun k _ => ?_
        rw [← BitVec.shiftLeft_add]
        congr 4
        omega
      have hrest := ih (x <<< 4)
      rw [htail] at hrest
      have hfirst : digit (x >>> 60).toNat = digit ((x <<< (4 * 0)) >>> 60).toNat := by simp
      have hloop : (ptrLoop (n + 1) x : Code H Unit) =
          consputc ((digit (x >>> 60).toNat).setWidth 32) >>= fun _ => ptrLoop n (x <<< 4) := rfl
      rw [List.range_succ_eq_map, List.map_cons, List.map_map, hloop, hfirst]
      exact (sends_byte _).bind hrest

/-- The digit that the loop of `printptr` sends in round `k`. -/
theorem shifted_digit (x : Word) {k : Nat} (hk : k < 16) :
    ((x <<< (4 * k)) >>> 60).toNat = x.toNat / 16 ^ (15 - k) % 16 := by
  have hx := x.isLt
  rw [BitVec.toNat_ushiftRight, BitVec.toNat_shiftLeft, Nat.shiftLeft_eq, Nat.shiftRight_eq_div_pow]
  interval_cases k <;> omega

theorem sends_printptr (x : Word) :
    Sends img quiet h (printptr x) () (ascii '0' :: ascii 'x' :: hexBytes 16 x) := by
  have hdigits : ((List.range 16).map fun k => digit ((x <<< (4 * k)) >>> 60).toNat) =
      hexBytes 16 x := by
    have hreverse : (List.range 16).reverse = (List.range 16).map fun k => 15 - k := by decide
    rw [hexBytes, hreverse, List.map_map]
    refine List.map_congr_left fun k hk => ?_
    rw [shifted_digit x (List.mem_range.mp hk)]
    rfl
  have hloop : Sends img quiet h (ptrLoop 16 x) () _ := sends_ptrLoop 16 x
  rw [hdigits] at hloop
  exact (sends_byte _).bind ((sends_byte _).bind hloop)

/-- `printint` stays inside its buffer and sends the one numeral of its argument. -/
theorem printint_exact {base : CInt} (hbase : Base base) (xx : Word) (sign : Bool) :
    ∃ s, printintBuf xx base sign = some s ∧
      Sends img quiet h (printint xx base sign) () s ∧
      IsNumeral base.toNat s (reads xx sign) ∧
      ∀ s', IsNumeral base.toNat s' (reads xx sign) → s' = s :=
  ⟨_, printintBuf_eq hbase xx sign, sends_printint hbase xx sign,
    isNumeral_signed hbase.two_le hbase.le_digits _,
    fun _ numeral => numeral.unique hbase.two_le hbase.le_digits⟩

end Sends

/-- The smallest number, whose negation overflows. -/
theorem printint_exact_smallest : ∃ s, printintBuf (1 <<< 63) 10 true = some s ∧
    Sends sampleImage true () (printint (1 <<< 63) 10 true) () s ∧
    IsNumeral 10 s (-2 ^ 63) ∧ ∀ s', IsNumeral 10 s' (-2 ^ 63) → s' = s :=
  printint_exact (.inl rfl) (1 <<< 63) true

end Xv6Kernel.Console
