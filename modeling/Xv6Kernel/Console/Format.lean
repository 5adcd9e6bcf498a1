import Xv6Kernel.Console.Numbers

/-!
# The format language of printf

What a format means: it is cut into tokens from left to right, every directive takes
one argument, and the tokens are rendered one after the other.
-/

namespace Xv6Kernel.Console

open Xv6Kernel.Foundation Xv6Kernel.Mm Xv6Kernel.Process

/-- A string in memory, without its terminator. -/
structure CString where
  bytes : List Byte
  noNul : 0 ∉ bytes

/-- An argument as it is passed: an `int` or `unsigned int`, a 64-bit integer or pointer,
or a string. -/
inductive Arg where
  | int (value : CInt)
  | long (value : Word)
  | string (s : Option CString)

inductive Directive where
  | decimal (long : Bool)
  | unsigned (long : Bool)
  | hex (long : Bool)
  | pointer
  | char
  | string
  deriving DecidableEq

inductive Token where
  | literal (c : Byte)
  | directive (d : Directive)
  | percent
  /-- `%` and a byte that begins no directive. -/
  | unknown (c : Byte)
  deriving DecidableEq

def text (s : String) : List Byte := s.toList.map ascii

/-- How the directives are spelt after the `%`. -/
def directives : List (List Byte × Directive) :=
  [(text "d", .decimal false), (text "ld", .decimal true), (text "lld", .decimal true),
    (text "u", .unsigned false), (text "lu", .unsigned true), (text "llu", .unsigned true),
    (text "x", .hex false), (text "lx", .hex true), (text "llx", .hex true),
    (text "p", .pointer), (text "c", .char), (text "s", .string)]

/-- The token that a `%` before `s` begins, and how many bytes of `s` belong to it. -/
def tokenAfter (s : List Byte) : List (List Byte × Directive) → Option (Token × Nat)
  | [] => s.head?.map fun c => (if c = ascii '%' then .percent else .unknown c, 1)
  | (spelling, d) :: table =>
      if spelling.isPrefixOf s then some (.directive d, spelling.length) else tokenAfter s table

def afterPercent (s : List Byte) : Option (Token × Nat) := tokenAfter s directives

/-- The tokens after `skip` bytes that belong to the last token. -/
def tokensFrom : Nat → List Byte → List Token
  | _, [] => []
  | skip + 1, _ :: s => tokensFrom skip s
  | 0, c :: s =>
      if c = ascii '%' then
        match afterPercent s with
        | some (token, width) => token :: tokensFrom width s
        | none => []
      else
        .literal c :: tokensFrom 0 s

def tokens (s : List Byte) : List Token := tokensFrom 0 s

def Directive.takes : Directive → Arg → Bool
  | .decimal false, .int _ | .unsigned false, .int _ | .hex false, .int _ => true
  | .decimal true, .long _ | .unsigned true, .long _ | .hex true, .long _ => true
  | .pointer, .long _ | .char, .int _ | .string, .string _ => true
  | _, _ => false

def Directive.render : Directive → Arg → List Byte
  | .decimal _, .int x => signedBytes 10 x.toInt
  | .decimal _, .long x => signedBytes 10 x.toInt
  | .unsigned _, .int x => numeralBytes 10 x.toNat
  | .unsigned _, .long x => numeralBytes 10 x.toNat
  | .hex _, .int x => numeralBytes 16 x.toNat
  | .hex _, .long x => numeralBytes 16 x.toNat
  | .pointer, .long x => text "0x" ++ hexBytes 16 x
  | .char, .int x => echoed x
  | .string, .string (some s) => s.bytes
  | .string, .string none => text "(null)"
  | _, _ => []

def render : List Token → List Arg → List Byte
  | .literal c :: ts, args => c :: render ts args
  | .directive d :: ts, a :: args => d.render a ++ render ts args
  | .percent :: ts, args => ascii '%' :: render ts args
  | .unknown c :: ts, args => ascii '%' :: c :: render ts args
  | _, _ => []

/-- One argument of the right type for each directive, in order. -/
def Fits : List Token → List Arg → Prop
  | .directive d :: ts, a :: args => d.takes a ∧ Fits ts args
  | .directive _ :: _, [] => False
  | .literal _ :: ts, args | .percent :: ts, args | .unknown _ :: ts, args => Fits ts args
  | [], args => args = []

example : tokens (text "%d%%%lz%") = [.directive (.decimal false), .percent,
    .unknown (ascii 'l'), .literal (ascii 'z')] := by
  decide

variable {s : List Byte} {ts : List Token} {args more rest : List Arg}

theorem tokenAfter_cons {spelling : List Byte} {d : Directive}
    {table : List (List Byte × Directive)} :
    tokenAfter s ((spelling, d) :: table) =
      if spelling.isPrefixOf s then some (.directive d, spelling.length)
      else tokenAfter s table := rfl

/-- A byte after a `%` always belongs to a token. -/
theorem afterPercent_cons (c : Byte) (s : List Byte) :
    ∃ token width, afterPercent (c :: s) = some (token, width) := by
  unfold afterPercent
  induction directives with
  | nil => exact ⟨_, _, rfl⟩
  | cons e table ih =>
      rw [tokenAfter_cons]
      split
      · exact ⟨_, _, rfl⟩
      · exact ih

theorem tokensFrom_drop (skip : Nat) (s : List Byte) :
    tokensFrom skip s = tokens (s.drop skip) := by
  induction s generalizing skip with
  | nil => cases skip <;> simp [tokens, tokensFrom]
  | cons c s ih =>
      cases skip with
      | zero => rfl
      | succ skip => exact ih skip

/-- What a token becomes, and the arguments that are left. -/
def Token.uses : Token → List Arg → Option (List Byte × List Arg)
  | .literal c, args => some ([c], args)
  | .directive d, a :: args => if d.takes a then some (d.render a, args) else none
  | .directive _, [] => none
  | .percent, args => some ([ascii '%'], args)
  | .unknown c, args => some ([ascii '%', c], args)

def uses : List Token → List Arg → Option (List Byte × List Arg)
  | [], args => some ([], args)
  | t :: ts, args => do
      let (s, args) ← t.uses args
      let (s', args) ← uses ts args
      some (s ++ s', args)

theorem uses_cons {t : Token} {out : List Byte}
    (huses : uses (t :: ts) args = some (out, rest)) : ∃ first args' last,
      t.uses args = some (first, args') ∧ uses ts args' = some (last, rest) ∧
        out = first ++ last := by
  obtain ⟨⟨first, args'⟩, hfirst, hrest⟩ := Option.bind_eq_some_iff.mp huses
  obtain ⟨⟨last, args''⟩, hlast, heq⟩ := Option.bind_eq_some_iff.mp hrest
  cases heq
  exact ⟨first, args', last, hfirst, hlast, rfl⟩

theorem uses_fits (fits : Fits ts args) (more : List Arg) :
    uses ts (args ++ more) = some (render ts args, more) := by
  induction ts generalizing args with
  | nil =>
      obtain rfl : args = [] := fits
      rfl
  | cons t ts ih =>
      cases t with
      | directive d =>
          cases args with
          | nil => exact fits.elim
          | cons a args =>
              obtain ⟨htakes, fits⟩ := fits
              simp [uses, Token.uses, htakes, ih fits, render]
      | literal c | unknown c =>
          have fits' : Fits ts args := fits
          simp [uses, Token.uses, ih fits', render]
      | percent =>
          have fits' : Fits ts args := fits
          simp [uses, Token.uses, ih fits', render]

end Xv6Kernel.Console
