import Xv6Kernel.Console.Format

/-!
# printf

The loop of `printf` over the bytes of its format, and that it sends what the format
means.
-/

namespace Xv6Kernel.Console

open Xv6Kernel.Foundation Xv6Kernel.Mm Xv6Kernel.Process

variable {H : Type} {α β : Type}

/-- `s[i]`, up to the terminator. -/
def CString.read (s : CString) (i : CInt) : Option Byte :=
  if 0 ≤ i.toInt ∧ i.toInt ≤ s.bytes.length then some (s.bytes.getD i.toNat 0) else none

/-- What has no value in C ends the program. -/
def defined (message : String) : Option β → Code H β
  | some value => pure value
  | none => Process.panic message

/-- `fmt[i] & 0xff`. -/
def fetch (fmt : CString) (i : CInt) : Code H Byte :=
  defined "printf: a byte is read outside the format" (fmt.read i)

/-- The byte at `i`, when `c` before it is not the terminator. -/
def fetchAfter (c : Byte) (fmt : CString) (i : CInt) : Code H Byte :=
  if c ≠ 0 then fetch fmt i else pure 0

/-! ## The arguments -/

/-- `va_arg(ap, int)`, as the parameter of `printint`. -/
def vaInt : List Arg → Option (Word × List Arg)
  | .int x :: args => some (x.signExtend 64, args)
  | _ => none

/-- `va_arg(ap, uint32)`, as the parameter of `printint`. -/
def vaUint32 : List Arg → Option (Word × List Arg)
  | .int x :: args => some (x.setWidth 64, args)
  | _ => none

/-- `va_arg(ap, uint64)`. -/
def vaUint64 : List Arg → Option (Word × List Arg)
  | .long x :: args => some (x, args)
  | _ => none

/-- `va_arg(ap, uint)`, as the parameter of `consputc`. -/
def vaUint : List Arg → Option (CInt × List Arg)
  | .int x :: args => some (x, args)
  | _ => none

/-- `va_arg(ap, char*)`. -/
def vaString : List Arg → Option (Option CString × List Arg)
  | .string s :: args => some (s, args)
  | _ => none

/-- The next argument, which must be there. -/
def vaArg (arg : Option (β × List Arg)) : Code H (β × List Arg) :=
  defined "printf: no argument of this type" arg

/-! ## The loop -/

/-- `printint(va_arg(ap, ...), base, sign)` at the end of a round that stands at `i`. -/
def putNumber (arg : Option (Word × List Arg)) (base : CInt) (sign : Bool) (i : CInt) :
    Code H (Option CInt × List Arg) := do
  let (x, args) ← vaArg arg
  printint x base sign
  return (some (i + 1), args)

/-- The branches for the bytes after a `%`, of which the first stands at `i`. -/
def directive (c0 c1 c2 : Byte) (i : CInt) (args : List Arg) :
    Code H (Option CInt × List Arg) :=
  if c0 = ascii 'd' then
    putNumber (vaInt args) 10 true i
  else if c0 = ascii 'l' ∧ c1 = ascii 'd' then
    putNumber (vaUint64 args) 10 true (i + 1)
  else if c0 = ascii 'l' ∧ c1 = ascii 'l' ∧ c2 = ascii 'd' then
    putNumber (vaUint64 args) 10 true (i + 2)
  else if c0 = ascii 'u' then
    putNumber (vaUint32 args) 10 false i
  else if c0 = ascii 'l' ∧ c1 = ascii 'u' then
    putNumber (vaUint64 args) 10 false (i + 1)
  else if c0 = ascii 'l' ∧ c1 = ascii 'l' ∧ c2 = ascii 'u' then
    putNumber (vaUint64 args) 10 false (i + 2)
  else if c0 = ascii 'x' then
    putNumber (vaUint32 args) 16 false i
  else if c0 = ascii 'l' ∧ c1 = ascii 'x' then
    putNumber (vaUint64 args) 16 false (i + 1)
  else if c0 = ascii 'l' ∧ c1 = ascii 'l' ∧ c2 = ascii 'x' then
    putNumber (vaUint64 args) 16 false (i + 2)
  else if c0 = ascii 'p' then do
    let (x, args) ← vaArg (vaUint64 args)
    printptr x
    return (some (i + 1), args)
  else if c0 = ascii 'c' then do
    let (c, args) ← vaArg (vaUint args)
    consputc c
    return (some (i + 1), args)
  else if c0 = ascii 's' then do
    let (s, args) ← vaArg (vaString args)
    Program.forEach ((s.map (·.bytes)).getD (text "(null)")) fun c => consputc (c.setWidth 32)
    return (some (i + 1), args)
  else if c0 = ascii '%' then do
    consputc ((ascii '%').setWidth 32)
    return (some (i + 1), args)
  else if c0 = 0 then
    return (none, args)
  else do
    consputc ((ascii '%').setWidth 32)
    consputc (c0.setWidth 32)
    return (some (i + 1), args)

/-- One round: the index of the next one, if there is one, and the arguments left. -/
def formatStep (fmt : CString) (i : CInt) (args : List Arg) :
    Code H (Option CInt × List Arg) := do
  let cx ← fetch fmt i
  if cx = 0 then
    return (none, args)
  else if cx ≠ ascii '%' then
    consputc (cx.setWidth 32)
    return (some (i + 1), args)
  else
    let i := i + 1
    let c0 ← fetch fmt i
    let c1 ← fetchAfter c0 fmt (i + 1)
    let c2 ← fetchAfter c1 fmt (i + 2)
    directive c0 c1 c2 i args

def formatLoop (fmt : CString) : Nat → CInt → List Arg → Code H (List Arg)
  | 0, _, _ => .perform .diverge
  | fuel + 1, i, args => do
      match ← formatStep fmt i args with
      | (some i, args) => formatLoop fmt fuel i args
      | (none, args) => return args

/-- `printf`, which answers the arguments it has not taken; the loop is given as many
rounds as the format has bytes, and one more. -/
def printf (fmt : CString) (args : List Arg) : Code H (List Arg) := do
  acquire .print
  let args ← formatLoop fmt (fmt.bytes.length + 1) 0 args
  release .print
  return args

/-! ## One round -/

section Steps

variable [DecidableEq H] {img : Image} {quiet : Bool} {h : H} {fmt : CString} {i : CInt} {k : Nat}
  {c0 c1 c2 : Byte} {args rest : List Arg} {s : List Byte}

theorem sends_defined {message : String} {arg : Option β} {value : β} (harg : arg = some value) :
    Sends img quiet h (defined message arg : Code H β) value [] := by
  subst harg
  exact .done value

/-- The index stands before the suffix `s` of the format. -/
structure At (fmt : CString) (i : CInt) (s : List Byte) : Prop where
  drop : fmt.bytes.drop i.toNat = s
  le : i.toNat ≤ fmt.bytes.length

theorem At.length (at' : At fmt i s) : i.toNat + s.length = fmt.bytes.length := by
  have hle := at'.le
  rw [← at'.drop, List.length_drop]
  omega

variable (hlength : fmt.bytes.length < 2 ^ 31)
include hlength

theorem At.read (at' : At fmt i s) : fmt.read i = some (s.getD 0 0) := by
  have hle := at'.le
  have htoInt : i.toInt = i.toNat := BitVec.toInt_eq_toNat_of_lt (by omega)
  rw [CString.read, if_pos (by omega), ← at'.drop]
  simp [List.getD_eq_getElem?_getD]

theorem sends_fetch (at' : At fmt i s) :
    Sends img quiet h (fetch fmt i : Code H Byte) (s.getD 0 0) [] :=
  sends_defined (at'.read hlength)

theorem At.add (at' : At fmt i s) {n : Nat} (hn : n ≤ s.length) :
    At fmt (i + BitVec.ofNat 32 n) (s.drop n) := by
  have hlen := at'.length
  have htoNat : (i + BitVec.ofNat 32 n).toNat = i.toNat + n := by
    rw [BitVec.toNat_add, BitVec.toNat_ofNat]
    omega
  refine ⟨?_, by omega⟩
  rw [htoNat, ← List.drop_drop, at'.drop]

end Steps

/-! ## Directives -/

/-- What the bytes after a `%` begin, in the order of the branches. -/
def conversion (c0 c1 c2 : Byte) : Option (Token × Nat) :=
  if c0 = ascii 'd' then some (.directive (.decimal false), 1)
  else if c0 = ascii 'l' ∧ c1 = ascii 'd' then some (.directive (.decimal true), 2)
  else if c0 = ascii 'l' ∧ c1 = ascii 'l' ∧ c2 = ascii 'd' then
    some (.directive (.decimal true), 3)
  else if c0 = ascii 'u' then some (.directive (.unsigned false), 1)
  else if c0 = ascii 'l' ∧ c1 = ascii 'u' then some (.directive (.unsigned true), 2)
  else if c0 = ascii 'l' ∧ c1 = ascii 'l' ∧ c2 = ascii 'u' then
    some (.directive (.unsigned true), 3)
  else if c0 = ascii 'x' then some (.directive (.hex false), 1)
  else if c0 = ascii 'l' ∧ c1 = ascii 'x' then some (.directive (.hex true), 2)
  else if c0 = ascii 'l' ∧ c1 = ascii 'l' ∧ c2 = ascii 'x' then
    some (.directive (.hex true), 3)
  else if c0 = ascii 'p' then some (.directive .pointer, 1)
  else if c0 = ascii 'c' then some (.directive .char, 1)
  else if c0 = ascii 's' then some (.directive .string, 1)
  else if c0 = ascii '%' then some (.percent, 1)
  else if c0 = 0 then none
  else some (.unknown c0, 1)

section Spelling

variable {x y z : Byte} (s : List Byte)

theorem prefix_one (hx : x ≠ 0) : [x].isPrefixOf s = true ↔ s.getD 0 0 = x := by
  cases s with
  | nil => simpa [List.isPrefixOf] using Ne.symm hx
  | cons c s => simp [List.isPrefixOf, @eq_comm _ x]

theorem prefix_two (hx : x ≠ 0) (hy : y ≠ 0) :
    [x, y].isPrefixOf s = true ↔ s.getD 0 0 = x ∧ s.getD 1 0 = y := by
  cases s with
  | nil => simpa [List.isPrefixOf] using fun h => absurd h.symm hx
  | cons c s =>
      rw [List.isPrefixOf, Bool.and_eq_true, prefix_one s hy]
      simp [@eq_comm _ x]

theorem prefix_three (hx : x ≠ 0) (hy : y ≠ 0) (hz : z ≠ 0) :
    [x, y, z].isPrefixOf s = true ↔
      s.getD 0 0 = x ∧ s.getD 1 0 = y ∧ s.getD 2 0 = z := by
  cases s with
  | nil => simpa [List.isPrefixOf] using fun h => absurd h.symm hx
  | cons c s =>
      rw [List.isPrefixOf, Bool.and_eq_true, prefix_two s hy hz]
      simp [@eq_comm _ x]

/-- The branches tell the directives apart by three bytes. -/
theorem afterPercent_eq (hnul : 0 ∉ s) :
    afterPercent s = conversion (s.getD 0 0) (s.getD 1 0) (s.getD 2 0) := by
  have hlast : tokenAfter s [] = if s.getD 0 0 = ascii '%' then some (.percent, 1)
      else if s.getD 0 0 = 0 then none else some (.unknown (s.getD 0 0), 1) := by
    cases s with
    | nil => rfl
    | cons c s =>
        have hc : ¬ c = 0#8 := fun heq => hnul (heq ▸ List.mem_cons_self)
        by_cases hpercent : c = ascii '%' <;> simp [tokenAfter, hpercent, hc]
  have htable : directives = [([ascii 'd'], .decimal false),
      ([ascii 'l', ascii 'd'], .decimal true),
      ([ascii 'l', ascii 'l', ascii 'd'], .decimal true), ([ascii 'u'], .unsigned false),
      ([ascii 'l', ascii 'u'], .unsigned true),
      ([ascii 'l', ascii 'l', ascii 'u'], .unsigned true), ([ascii 'x'], .hex false),
      ([ascii 'l', ascii 'x'], .hex true), ([ascii 'l', ascii 'l', ascii 'x'], .hex true),
      ([ascii 'p'], .pointer), ([ascii 'c'], .char), ([ascii 's'], .string)] := by decide
  rw [afterPercent, htable]
  have hd : ascii 'd' ≠ 0 := by decide
  have hl : ascii 'l' ≠ 0 := by decide
  have hu : ascii 'u' ≠ 0 := by decide
  have hx : ascii 'x' ≠ 0 := by decide
  have hp : ascii 'p' ≠ 0 := by decide
  have hc : ascii 'c' ≠ 0 := by decide
  have hs : ascii 's' ≠ 0 := by decide
  simp only [tokenAfter_cons, hlast, prefix_one s hd, prefix_two s hl hd,
    prefix_three s hl hl hd, prefix_one s hu, prefix_two s hl hu, prefix_three s hl hl hu,
    prefix_one s hx, prefix_two s hl hx, prefix_three s hl hl hx, prefix_one s hp,
    prefix_one s hc, prefix_one s hs]
  rfl

end Spelling

/-! ## One round -/

section Rounds

variable [DecidableEq H] {img : Image} {quiet : Bool} {h : H} {fmt : CString} {i j : CInt}
  {n : Nat} {d : Directive} {c0 c1 c2 : Byte} {args rest : List Arg} {s : List Byte}

/-- The code does what the token says and goes on behind it. -/
def Handles (img : Image) (quiet : Bool) (h : H) (code : Code H (Option CInt × List Arg))
    (i : CInt) (args : List Arg) (next : Option (Token × Nat)) : Prop :=
  ∀ token width s rest, next = some (token, width) → token.uses args = some (s, rest) →
    Sends img quiet h code (some (i + BitVec.ofNat 32 width), rest) s

theorem Handles.ite {p : Prop} [Decidable p] {code code' : Code H (Option CInt × List Arg)}
    {next next' : Option (Token × Nat)} (hcode : p → Handles img quiet h code i args next)
    (hcode' : ¬ p → Handles img quiet h code' i args next') :
    Handles img quiet h (if p then code else code') i args (if p then next else next') := by
  by_cases hp : p
  · rw [if_pos hp, if_pos hp]
    exact hcode hp
  · rw [if_neg hp, if_neg hp]
    exact hcode' hp

/-- A directive takes its argument and sends the rendering of it. -/
theorem Handles.directive {code : Code H (Option CInt × List Arg)}
    (hcode : ∀ a rest, args = a :: rest → d.takes a = true →
      Sends img quiet h code (some (i + BitVec.ofNat 32 n), rest) (d.render a)) :
    Handles img quiet h code i args (some (.directive d, n)) := by
  intro token width s rest htoken huses
  cases htoken
  cases args with
  | nil => cases huses
  | cons a args =>
      simp only [Token.uses] at huses
      split at huses
      · next htakes =>
        cases huses
        exact hcode a rest rfl htakes
      · cases huses

theorem handles_number {va : List Arg → Option (Word × List Arg)} {base : CInt} {sign : Bool}
    (hbase : Base base) (hva : ∀ a rest, d.takes a = true → ∃ x,
      va (a :: rest) = some (x, rest) ∧ signedBytes base.toNat (reads x sign) = d.render a)
    (hnext : j + 1 = i + BitVec.ofNat 32 n) :
    Handles img quiet h (putNumber (va args) base sign j) i args (some (.directive d, n)) := by
  refine .directive fun a rest hargs htakes => ?_
  subst hargs
  obtain ⟨x, hx, hrender⟩ := hva a rest htakes
  rw [← hnext, ← hrender]
  exact (sends_defined hx).bind ((sends_printint hbase x sign).last _)

theorem signedBytes_nat (b n : Nat) : signedBytes b (n : Int) = numeralBytes b n := by
  rw [signedBytes, if_neg (by omega), Int.natAbs_natCast]

/-- `%d`, which is widened with its sign. -/
theorem va_decimal (a : Arg) (rest : List Arg) (htakes : (Directive.decimal false).takes a = true) :
    ∃ x, vaInt (a :: rest) = some (x, rest) ∧
      signedBytes 10 (reads x true) = (Directive.decimal false).render a := by
  cases a with
  | int x =>
      refine ⟨_, rfl, ?_⟩
      rw [reads, if_pos rfl, BitVec.toInt_signExtend_of_le (by decide)]
      rfl
  | long | string => cases htakes

/-- `%u` and `%x`, which are widened with zeros. -/
theorem va_uint32 {b : Nat} (hd : d = .unsigned false ∧ b = 10 ∨ d = .hex false ∧ b = 16)
    (a : Arg) (rest : List Arg) (htakes : d.takes a = true) :
    ∃ x, vaUint32 (a :: rest) = some (x, rest) ∧
      signedBytes b (reads x false) = d.render a := by
  rcases hd with ⟨rfl, rfl⟩ | ⟨rfl, rfl⟩
  all_goals
    cases a with
    | int x =>
        refine ⟨_, rfl, ?_⟩
        rw [reads, if_neg (by decide), signedBytes_nat, BitVec.toNat_setWidth_of_le (by decide)]
        rfl
    | long | string => cases htakes

theorem va_uint64 {b : Nat} {sign : Bool} (hd : d = .decimal true ∧ b = 10 ∧ sign = true ∨
    d = .unsigned true ∧ b = 10 ∧ sign = false ∨ d = .hex true ∧ b = 16 ∧ sign = false)
    (a : Arg) (rest : List Arg) (htakes : d.takes a = true) :
    ∃ x, vaUint64 (a :: rest) = some (x, rest) ∧
      signedBytes b (reads x sign) = d.render a := by
  cases a with
  | long x =>
      refine ⟨x, rfl, ?_⟩
      rcases hd with ⟨rfl, rfl, rfl⟩ | ⟨rfl, rfl, rfl⟩ | ⟨rfl, rfl, rfl⟩
      · rfl
      · exact signedBytes_nat 10 _
      · exact signedBytes_nat 16 _
  | int | string => rcases hd with ⟨rfl, -⟩ | ⟨rfl, -⟩ | ⟨rfl, -⟩ <;> cases htakes

theorem handles_pointer : Handles img quiet h (do
      let (x, args) ← vaArg (vaUint64 args)
      printptr x
      return (some (i + 1), args)) i args (some (.directive .pointer, 1)) := by
  refine .directive fun a rest hargs htakes => ?_
  subst hargs
  cases a with
  | long x => exact (sends_defined rfl).bind ((sends_printptr x).last _)
  | int | string => cases htakes

theorem handles_char : Handles img quiet h (do
      let (c, args) ← vaArg (vaUint args)
      consputc c
      return (some (i + 1), args)) i args (some (.directive .char, 1)) := by
  refine .directive fun a rest hargs htakes => ?_
  subst hargs
  cases a with
  | int x => exact (sends_defined rfl).bind ((sends_consputc x).last _)
  | long | string => cases htakes

theorem handles_string : Handles img quiet h (do
      let (s, args) ← vaArg (vaString args)
      Program.forEach ((s.map (·.bytes)).getD (text "(null)")) fun c => consputc (c.setWidth 32)
      return (some (i + 1), args)) i args (some (.directive .string, 1)) := by
  refine .directive fun a rest hargs htakes => ?_
  subst hargs
  cases a with
  | string s => cases s <;> exact (sends_defined rfl).bind ((sends_bytes _).last _)
  | int | long => cases htakes

theorem directive_handles :
    Handles img quiet h (directive c0 c1 c2 i args) i args (conversion c0 c1 c2) := by
  have htwo : i + 1 + 1 = i + 2#32 := BitVec.add_assoc ..
  have hthree : i + 2 + 1 = i + 3#32 := BitVec.add_assoc ..
  unfold directive conversion
  -- The branches come in the order of the source.
  refine .ite (fun _ => handles_number (.inl rfl) va_decimal rfl) fun _ => ?_
  refine .ite (fun _ => handles_number (.inl rfl) (va_uint64 (by simp)) htwo) fun _ => ?_
  refine .ite (fun _ => handles_number (.inl rfl) (va_uint64 (by simp)) hthree) fun _ => ?_
  refine .ite (fun _ => handles_number (.inl rfl) (va_uint32 (by simp)) rfl) fun _ => ?_
  refine .ite (fun _ => handles_number (.inl rfl) (va_uint64 (by simp)) htwo) fun _ => ?_
  refine .ite (fun _ => handles_number (.inl rfl) (va_uint64 (by simp)) hthree) fun _ => ?_
  refine .ite (fun _ => handles_number (.inr rfl) (va_uint32 (by simp)) rfl) fun _ => ?_
  refine .ite (fun _ => handles_number (.inr rfl) (va_uint64 (by simp)) htwo) fun _ => ?_
  refine .ite (fun _ => handles_number (.inr rfl) (va_uint64 (by simp)) hthree) fun _ => ?_
  refine .ite (fun _ => handles_pointer) fun _ => ?_
  refine .ite (fun _ => handles_char) fun _ => ?_
  refine .ite (fun _ => handles_string) fun _ => ?_
  refine .ite (fun _ => ?_) fun _ => .ite (fun _ => ?_) fun _ => ?_
  · rintro token width s rest ⟨⟩ ⟨⟩
    exact (sends_byte _).last _
  · rintro token width s rest ⟨⟩
  · rintro token width s rest ⟨⟩ ⟨⟩
    exact (sends_byte _).bind ((sends_byte _).last _)

theorem afterPercent_width {token : Token} (htoken : afterPercent s = some (token, n)) :
    n ≤ s.length := by
  unfold afterPercent at htoken
  generalize directives = table at htoken
  induction table with
  | nil =>
      cases s with
      | nil => cases htoken
      | cons c s =>
          cases htoken
          exact Nat.succ_le_succ (Nat.zero_le _)
  | cons e table ih =>
      rw [tokenAfter_cons] at htoken
      split at htoken
      · next hprefix =>
        cases htoken
        exact (List.isPrefixOf_iff_prefix.mp hprefix).length_le
      · exact ih htoken

end Rounds

section Loop

theorem getD_eq_zero {s : List Byte} (hnul : 0 ∉ s) {n : Nat} : s.getD n 0 = 0 ↔ s.length ≤ n := by
  rw [List.getD_eq_getElem?_getD]
  by_cases hn : n < s.length
  · rw [List.getElem?_eq_getElem hn, Option.getD_some]
    exact iff_of_false (fun heq => hnul (heq ▸ List.getElem_mem hn)) (by omega)
  · rw [List.getElem?_eq_none (by omega)]
    exact iff_of_true rfl (by omega)

variable [DecidableEq H] {img : Image} {quiet : Bool} {h : H} {fmt : CString} {i : CInt}
  {args rest : List Arg} {s out : List Byte} {c : Byte} {fuel : Nat}
  (hlength : fmt.bytes.length < 2 ^ 31)
include hlength

theorem formatStep_nul (at' : At fmt i []) :
    Sends img quiet h (formatStep fmt i args) (none, args) [] :=
  (sends_fetch hlength at').bind (.done _)

theorem formatStep_literal (at' : At fmt i (c :: s)) (hnul : c ≠ 0) (hc : c ≠ ascii '%') :
    Sends img quiet h (formatStep fmt i args) (some (i + 1), args) [c] := by
  refine (sends_fetch hlength at').bind ?_
  rw [List.getD_cons_zero, if_neg hnul, if_pos hc]
  exact (sends_byte c).last _

/-- The reads after a `%` stay within the format and its terminator. -/
theorem formatStep_percent {next : Option CInt × List Arg} (at' : At fmt i (ascii '%' :: s))
    (hnul : 0 ∉ s) (hnext : Sends img quiet h
      (directive (s.getD 0 0) (s.getD 1 0) (s.getD 2 0) (i + 1) args) next out) :
    Sends img quiet h (formatStep fmt i args) next out := by
  have hafter : At fmt (i + 1) s := at'.add hlength (n := 1) (by simp)
  have hread : ∀ n, Sends img quiet h (fetchAfter (s.getD n 0) fmt
      (i + 1 + BitVec.ofNat 32 (n + 1)) : Code H Byte) (s.getD (n + 1) 0) [] := by
    intro n
    unfold fetchAfter
    by_cases hend : s.length ≤ n
    · rw [if_neg (not_not.mpr ((getD_eq_zero hnul).mpr hend)),
        (getD_eq_zero hnul).mpr (Nat.le_succ_of_le hend)]
      exact .done 0
    · have hfetch : Sends img quiet h
          (fetch fmt (i + 1 + BitVec.ofNat 32 (n + 1)) : Code H Byte) _ _ :=
        sends_fetch hlength (hafter.add hlength (by omega))
      rw [if_pos ((getD_eq_zero hnul).not.mpr hend)]
      simpa [List.getD_eq_getElem?_getD] using hfetch
  refine (sends_fetch hlength at').bind ?_
  rw [List.getD_cons_zero, if_neg (by decide), if_neg (by decide)]
  exact (sends_fetch hlength hafter).bind ((hread 0).bind ((hread 1).bind hnext))

/-- The whole loop, with a round left for every byte and for the terminator. -/
theorem formatLoop_sends (at' : At fmt i s) (hfuel : s.length < fuel)
    (huses : uses (tokens s) args = some (out, rest)) :
    Sends img quiet h (formatLoop fmt fuel i args) rest out := by
  induction fuel generalizing i s args out with
  | zero => omega
  | succ fuel ih =>
      have hnul : 0 ∉ s := by
        rw [← at'.drop]
        exact fun hmem => fmt.noNul (List.mem_of_mem_drop hmem)
      cases s with
      | nil =>
          cases huses
          exact (formatStep_nul hlength at').bind (.done _)
      | cons c s =>
          have hnul' : 0 ∉ s := fun hmem => hnul (List.mem_cons_of_mem c hmem)
          have hc : c ≠ 0 := fun heq => hnul (heq ▸ List.mem_cons_self)
          have hafter : At fmt (i + 1) s := at'.add hlength (n := 1) (by simp)
          simp only [List.length_cons] at hfuel
          by_cases hpercent : c = ascii '%'
          · subst hpercent
            cases s with
            | nil =>
                cases huses
                have hlast : Sends img quiet h (directive 0 0 0 (i + 1) rest) (none, rest) [] :=
                  .done _
                exact (formatStep_percent hlength at' hnul' hlast).bind (.done _)
            | cons c0 s =>
                obtain ⟨token, width, htoken⟩ := afterPercent_cons c0 s
                have htokens : tokens (ascii '%' :: c0 :: s) =
                    token :: tokens ((c0 :: s).drop width) := by
                  rw [tokens, tokensFrom, if_pos rfl, htoken]
                  exact congrArg _ (tokensFrom_drop ..)
                rw [htokens] at huses
                obtain ⟨first, args', last, hfirst, hlast, rfl⟩ := uses_cons huses
                have hconv := (afterPercent_eq (c0 :: s) hnul').symm.trans htoken
                have hwidth := afterPercent_width htoken
                have hstep : Sends img quiet h _
                    (some (i + 1 + BitVec.ofNat 32 width), args') first :=
                  directive_handles token width first args' hconv hfirst
                refine (formatStep_percent hlength at' hnul' hstep).bind
                  (ih (hafter.add hlength hwidth) ?_ hlast)
                rw [List.length_drop]
                omega
          · have htokens : tokens (c :: s) = .literal c :: tokens s := by
              simp [tokens, tokensFrom, hpercent]
            rw [htokens] at huses
            obtain ⟨first, args', last, hfirst, hlast, rfl⟩ := uses_cons huses
            cases hfirst
            exact (formatStep_literal hlength at' hc hpercent).bind (ih hafter (by omega) hlast)

/-- The loop stays inside the format, takes one argument for each directive, in order,
and sends what the format means; around it, the lock is taken and given back. -/
theorem printf_renders {more : List Arg} {w : World H} (fits : Fits (tokens fmt.bytes) args)
    (hfree : w.lock .print = ⟨none, none⟩) (steady : w.Steady h) :
    ∃ w', Alone (platform img quiet) h (printf fmt (args ++ more)) w (.ok (more, w')) ∧
      w'.kernel = (sent (render (tokens fmt.bytes) args) w).kernel ∧ w'.lock = w.lock ∧
      (w'.cpus h).noff = (w.cpus h).noff ∧ w'.csr = w.csr := by
  have at' : At fmt 0 fmt.bytes := ⟨rfl, Nat.zero_le _⟩
  have hloop : Sends img quiet h (formatLoop fmt (fmt.bytes.length + 1) 0 (args ++ more)) more _ :=
    formatLoop_sends hlength at' (Nat.lt_succ_self _) (uses_fits fits more)
  generalize render (tokens fmt.bytes) args = out at hloop ⊢
  have steady' : (sent out w).Steady h := steady.imp_right fun off => ⟨off.noff, off.sie⟩
  have taken : ((sent out w).taken h .print).Off h := World.off_taken steady' .print
  have hback : ((sent out w).taken h .print).dropped h .print = (sent out w).noted h :=
    World.dropped_taken steady' hfree
  refine ⟨(sent out w).noted h, (alone_acquire hfree).bind ((hloop _).bind ?_), rfl, rfl, ?_, rfl⟩
  · rw [← hback]
    exact (alone_release taken (World.lock_taken_self .print)).bind (.done ..)
  · simp [World.noted, World.setCpu, sent, World.withKernel]

end Loop

def sampleFormat : CString := ⟨text "%d%%\n", by decide⟩

theorem printf_renders_sample : ∃ w', Alone (platform sampleImage true) ()
      (printf sampleFormat ([.int 42] ++ [])) (bootWorld ⟨fun _ => 0, 0, 0⟩) (.ok ([], w')) ∧
    w'.kernel = (sent (text "42%\n") (bootWorld (H := Unit) ⟨fun _ => 0, 0, 0⟩)).kernel ∧
    w'.lock = (bootWorld ⟨fun _ => 0, 0, 0⟩).lock ∧
    (w'.cpus ()).noff = ((bootWorld (H := Unit) ⟨fun _ => 0, 0, 0⟩).cpus ()).noff ∧
    w'.csr = (bootWorld ⟨fun _ => 0, 0, 0⟩).csr := by
  have fits : Fits (tokens sampleFormat.bytes) [.int 42] := ⟨rfl, rfl⟩
  have hrender : render (tokens sampleFormat.bytes) [.int 42] = text "42%\n" := by decide
  rw [← hrender]
  exact printf_renders (by decide) fits rfl (.inl rfl)

end Xv6Kernel.Console
