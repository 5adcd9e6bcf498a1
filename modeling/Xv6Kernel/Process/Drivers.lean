import Xv6Kernel.Console.Numbers
import Xv6Kernel.Foundation.Device
import Xv6Kernel.Process.Devices

/-!
# The drivers and their devices

The 16550 sends the byte in `THR` when it gets to it, and a second byte written before
that takes the place of the first.  The PLIC holds back a source between its claim and its
completion.  The drivers lose no byte and leave no source held back.
-/

namespace Xv6Kernel.Process.Devices

open Xv6Kernel.Console Xv6Kernel.Foundation Xv6Kernel.Mm Relation

/-! ## The devices -/

structure Board where
  /-- The byte waiting in `THR`. -/
  thr : Option Byte
  /-- How often `LSR` may still say that there is one. -/
  busy : Nat
  /-- The bytes that have gone out on the line. -/
  line : List Byte
  /-- The bytes that were overwritten in `THR`, or cleared from it. -/
  lost : List Byte
  /-- The bytes received, the ones still to come, and the ones the driver has read. -/
  rx : List Byte
  wire : List Byte
  taken : List Byte
  ier : Byte
  lcr : Byte
  divisor : Byte × Byte
  pending : CInt → Bool
  claimed : CInt → Bool

/-- The registers of the UART at the offsets 0 and 1 are those of the divisor. -/
def Board.latched (b : Board) : Bool := b.lcr.getLsbD 7

inductive Register where
  | data | ier | fcr | lcr | lsr | claim
  deriving DecidableEq

def ier : Word := 1
def fcr : Word := 2
def lcr : Word := 3

def Register.at (address : Word) : Option Register :=
  if address = reg thr then some .data
  else if address = reg Devices.ier then some .ier
  else if address = reg Devices.fcr then some .fcr
  else if address = reg Devices.lcr then some .lcr
  else if address = reg Devices.lsr then some .lsr
  else if address = plicSclaim then some .claim
  else none

/-- What a load may answer, and the board after it. -/
def Board.Reads (b : Board) (address : Word) (v : CInt) (b' : Board) : Prop :=
  match Register.at address with
  | some .data =>
      if b.latched then b' = b
      else match b.rx with
        | [] => b' = b
        | c :: rest => v = c.setWidth 32 ∧ b' = { b with rx := rest, taken := b.taken ++ [c] }
  | some .lsr => (v &&& 0x01 ≠ 0 ↔ b.rx ≠ []) ∧
      (v &&& 0x20 ≠ 0 ∧ b.thr = none ∧ b' = b ∨
        v &&& 0x20 = 0 ∧ b.thr ≠ none ∧ b.busy ≠ 0 ∧ b' = { b with busy := b.busy - 1 })
  | some .claim =>
      v = 0 ∧ b' = b ∧ (∀ irq ≠ 0, b.pending irq = false) ∨
        v ≠ 0 ∧ b.pending v = true ∧
          b' = { b with
            pending := Function.update b.pending v false
            claimed := Function.update b.claimed v true }
  | some .ier | some .fcr | some .lcr | none => b' = b

/-- What a store does; `slow` bounds how long a byte stays in `THR`. -/
def Board.Writes (slow : Nat) (b : Board) (address : Word) (v : CInt) (b' : Board) : Prop :=
  let v' := v.setWidth 8
  match Register.at address with
  | some .data =>
      if b.latched then b' = { b with divisor := (v', b.divisor.2) }
      else ∃ n ≤ slow,
        b' = { b with thr := some v', busy := n, lost := b.lost ++ b.thr.toList }
  | some .ier =>
      b' = if b.latched then { b with divisor := (b.divisor.1, v') } else { b with ier := v' }
  | some .fcr =>
      b' = { b with
        rx := if v'.getLsbD 1 then [] else b.rx
        thr := if v'.getLsbD 2 then none else b.thr
        lost := if v'.getLsbD 2 then b.lost ++ b.thr.toList else b.lost }
  | some .lcr => b' = { b with lcr := v' }
  | some .claim => b' = { b with claimed := Function.update b.claimed v false }
  | some .lsr | none => b' = b

inductive Board.Moves (sources : CInt → Prop) (b : Board) : Board → Prop where
  | shift (c : Byte) (hthr : b.thr = some c) :
      Moves sources b { b with thr := none, line := b.line ++ [c] }
  | receive (c : Byte) (rest : List Byte) (hwire : b.wire = c :: rest) :
      Moves sources b { b with rx := b.rx ++ [c], wire := rest }
  | raise (irq : CInt) (hsource : sources irq) (hopen : b.claimed irq = false) :
      Moves sources b { b with pending := Function.update b.pending irq true }

def Board.Serves (slow : Nat) {β : Type} (i : DevInstr β) (b : Board) (answer : β) (b' : Board) :
    Prop :=
  match i, answer with
  | .read address, v => b.Reads address v b'
  | .write address v, _ => b.Writes slow address v b'
  | .panic _, _ | .diverge, _ => False

def Accesses {β : Type} : DevInstr β → Prop
  | .read _ | .write .. => True
  | .panic _ | .diverge => False

/-- The UART and the PLIC, whose sources are those that may raise an interrupt. -/
def board (slow : Nat) (sources : CInt → Prop) : Device DevInstr Board where
  moves := Board.Moves sources
  serves i b answer b' := b.Serves slow i answer b'
  served := Accesses

/-! ## uart.c -/

def uartinit : DevM Unit := do
  writeReg (reg ier) 0x00
  writeReg (reg lcr) 0x80
  writeReg (reg 0) 0x03
  writeReg (reg 1) 0x00
  writeReg (reg lcr) 0x03
  writeReg (reg fcr) (0x01 ||| 0x06)
  writeReg (reg ier) (0x02 ||| 0x01)

/-- `fuel` bounds the rounds that the transmitter stays busy; `s` ends before the terminator. -/
def uartPuts (fuel : Nat) : List Byte → DevM Unit
  | [] => return ()
  | c :: s => do
      if c = ascii '\n' then
        uartPutc fuel ((ascii '\r').setWidth 32)
      uartPutc fuel (c.setWidth 32)
      uartPuts fuel s

/-! ## What is sent and received -/

/-- The data registers can be reached. -/
structure Board.Ready (slow : Nat) (b : Board) : Prop where
  latched : b.latched = false
  busy : b.busy ≤ slow

/-- From `b` to `b'` the driver has sent `bytes`; no byte is lost, sent or received twice, or
out of order, and no source is claimed that was not. -/
structure Carried (slow : Nat) (b : Board) (bytes : List Byte) (b' : Board) : Prop where
  ready : b'.Ready slow
  sent : b'.line ++ b'.thr.toList = b.line ++ b.thr.toList ++ bytes
  lost : b'.lost = b.lost
  received : b'.taken ++ b'.rx ++ b'.wire = b.taken ++ b.rx ++ b.wire
  fifo : b.taken ++ b.rx <+: b'.taken ++ b'.rx
  claimed : b'.claimed = b.claimed
  pending : ∀ irq, b.pending irq = true → b'.pending irq = true

variable {slow fuel : Nat} {sources : CInt → Prop} {b b' b'' : Board} {bytes bytes' : List Byte}

theorem Carried.refl (ready : b.Ready slow) : Carried slow b [] b where
  ready := ready
  sent := (List.append_nil _).symm
  lost := rfl
  received := rfl
  fifo := List.prefix_refl _
  claimed := rfl
  pending _ := id

theorem Carried.trans (first : Carried slow b bytes b') (second : Carried slow b' bytes' b'') :
    Carried slow b (bytes ++ bytes') b'' where
  ready := second.ready
  sent := by rw [second.sent, first.sent, List.append_assoc]
  lost := second.lost.trans first.lost
  received := second.received.trans first.received
  fifo := first.fifo.trans second.fifo
  claimed := second.claimed.trans first.claimed
  pending irq hirq := second.pending irq (first.pending irq hirq)

theorem Carried.move (carried : Carried slow b bytes b') (hmove : b'.Moves sources b'') :
    Carried slow b bytes b'' := by
  have ready := carried.ready
  rw [← List.append_nil bytes]
  refine carried.trans ?_
  cases hmove with
  | shift c hthr =>
      exact { Carried.refl ready with
        ready := ⟨ready.latched, ready.busy⟩
        sent := by simp [hthr] }
  | receive c rest hwire =>
      exact { Carried.refl ready with
        ready := ⟨ready.latched, ready.busy⟩
        received := by simp [hwire]
        fifo := by rw [← List.append_assoc]; exact List.prefix_append _ _ }
  | raise irq hsource hopen =>
      refine { Carried.refl ready with
        ready := ⟨ready.latched, ready.busy⟩
        pending := fun irq' hirq' => ?_ }
      by_cases heq : irq' = irq
      · subst heq
        exact Function.update_self ..
      · exact (Function.update_of_ne heq ..).trans hirq'

theorem Carried.moves (carried : Carried slow b bytes b')
    (hmoves : ReflTransGen (Board.Moves sources) b' b'') : Carried slow b bytes b'' := by
  induction hmoves with
  | refl => exact carried
  | tail _ hmove ih => exact ih.move hmove

/-- What the moves of the devices leave alone. -/
structure Board.Kept (b b' : Board) : Prop where
  sent : b'.line ++ b'.thr.toList = b.line ++ b.thr.toList
  lost : b'.lost = b.lost
  busy : b'.busy = b.busy
  ier : b'.ier = b.ier
  lcr : b'.lcr = b.lcr
  divisor : b'.divisor = b.divisor
  taken : b'.taken = b.taken

theorem moves_kept (hmoves : ReflTransGen (Board.Moves sources) b b') : b.Kept b' := by
  induction hmoves with
  | refl => exact ⟨rfl, rfl, rfl, rfl, rfl, rfl, rfl⟩
  | tail _ hmove ih =>
      cases hmove with
      | shift c hthr => exact { ih with sent := by rw [← ih.sent, hthr]; simp }
      | receive | raise => 
          exact ⟨ih.sent, ih.lost, ih.busy, ih.ier, ih.lcr, ih.divisor, ih.taken⟩

/-- The device only ever empties `THR`. -/
theorem moves_thr (hmoves : ReflTransGen (Board.Moves sources) b b') (hthr : b.thr = none) :
    b'.thr = none := by
  induction hmoves with
  | refl => exact hthr
  | tail _ hmove ih =>
      cases hmove with
      | shift c h => rfl
      | receive c rest h => exact ih
      | raise irq => exact ih

/-! ## The transmitter -/

theorem at_ier : Register.at (reg ier) = some .ier := by decide
theorem at_fcr : Register.at (reg fcr) = some .fcr := by decide
theorem at_lcr : Register.at (reg lcr) = some .lcr := by decide
theorem at_data : Register.at (reg thr) = some .data := by decide
theorem at_rhr : Register.at (reg rhr) = some .data := by decide
theorem at_lsr : Register.at (reg lsr) = some .lsr := by decide
theorem at_isr : Register.at (reg isr) = some .fcr := by decide
theorem at_claim : Register.at plicSclaim = some .claim := by decide

theorem ensures_readReg {address : Word} {Q : CInt → Board → Prop}
    (hQ : ∀ {b₁ v b₂}, ReflTransGen (Board.Moves sources) b b₁ → b₁.Reads address v b₂ → Q v b₂) :
    (board slow sources).Ensures (readReg address) Q b :=
  fun _ hmoves => ⟨trivial, fun _ _ hread => hQ hmoves hread⟩

theorem ensures_writeReg {address : Word} {value : CInt} {Q : Unit → Board → Prop}
    (hQ : ∀ {b₁ b₂}, ReflTransGen (Board.Moves sources) b b₁ →
      b₁.Writes slow address value b₂ → Q () b₂) :
    (board slow sources).Ensures (writeReg address value) Q b :=
  fun _ hmoves => ⟨trivial, fun _ _ hwrite => hQ hmoves hwrite⟩

theorem Carried.waited (carried : Carried slow b bytes b') :
    Carried slow b bytes { b' with busy := b'.busy - 1 } :=
  { carried with ready := ⟨carried.ready.latched, (Nat.sub_le ..).trans carried.ready.busy⟩ }

theorem Carried.stored (carried : Carried slow b bytes b') (hthr : b'.thr = none) (c : Byte)
    {n : Nat} (hn : n ≤ slow) : Carried slow b (bytes ++ [c])
      { b' with thr := some c, busy := n, lost := b'.lost ++ b'.thr.toList } where
  ready := ⟨carried.ready.latched, hn⟩
  sent := by
    have hsent := carried.sent
    rw [hthr, Option.toList_none, List.append_nil] at hsent
    simp [hsent]
  lost := by
    rw [hthr, Option.toList_none, List.append_nil]
    exact carried.lost
  received := carried.received
  fifo := carried.fifo
  claimed := carried.claimed
  pending := carried.pending

/-- A byte waits until `THR` is empty, however long the one before it takes. -/
theorem ensures_uartPutc (c : CInt) (carried : Carried slow b bytes b')
    (hfuel : b'.thr = none ∧ 0 < fuel ∨ b'.busy < fuel) :
    (board slow sources).Ensures (uartPutc fuel c)
      (fun _ => Carried slow b (bytes ++ [c.setWidth 8])) b' := by
  induction fuel generalizing b' with
  | zero => omega
  | succ fuel ih =>
      refine Device.ensures_bind.mpr (ensures_readReg fun {b₁ v b₂} hmoves hread => ?_)
      have carried₁ := carried.moves hmoves
      simp only [Board.Reads, at_lsr] at hread
      obtain ⟨-, ⟨hidle, hthr, rfl⟩ | ⟨hfull, hthr, hbusy, rfl⟩⟩ := hread
      · rw [if_neg hidle]
        refine ensures_writeReg fun {b₃ b₄} hmoves' hwrite => ?_
        have carried₃ := carried₁.moves hmoves'
        simp only [Board.Writes, at_data, carried₃.ready.latched, Bool.false_eq_true, if_false]
          at hwrite
        obtain ⟨n, hn, rfl⟩ := hwrite
        exact carried₃.stored (moves_thr hmoves' hthr) _ hn
      · rw [if_pos hfull]
        refine ih carried₁.waited (.inr ?_)
        have hsame := (moves_kept hmoves).busy
        rcases hfuel with ⟨hnone, -⟩ | hlt
        · exact absurd (moves_thr hmoves hnone) hthr
        · change b₁.busy - 1 < fuel
          omega

theorem ensures_putc (hfuel : slow < fuel) (c : CInt) (carried : Carried slow b bytes b') :
    (board slow sources).Ensures (uartPutc fuel c)
      (fun _ => Carried slow b (bytes ++ [c.setWidth 8])) b' :=
  ensures_uartPutc c carried (.inr (carried.ready.busy.trans_lt hfuel))

/-- The bytes with a carriage return before each newline. -/
def crlfBytes (s : List Byte) : List Byte :=
  s.flatMap fun c => if c = ascii '\n' then [ascii '\r', c] else [c]

theorem crlfBytes_newline (s : List Byte) :
    crlfBytes (ascii '\n' :: s) = ascii '\r' :: ascii '\n' :: crlfBytes s := rfl

theorem crlfBytes_other {c : Byte} (hc : c ≠ ascii '\n') (s : List Byte) :
    crlfBytes (c :: s) = c :: crlfBytes s := by
  simp [crlfBytes, hc]

theorem setWidth_byte (c : Byte) : (c.setWidth 32 : CInt).setWidth 8 = c := by
  rw [BitVec.setWidth_setWidth_of_le _ (by decide), BitVec.setWidth_eq]

theorem ensures_uartPuts (hfuel : slow < fuel) (s : List Byte) (carried : Carried slow b bytes b') :
    (board slow sources).Ensures (uartPuts fuel s)
      (fun _ => Carried slow b (bytes ++ crlfBytes s)) b' := by
  induction s generalizing bytes b' with
  | nil => simpa [uartPuts, crlfBytes, Device.Ensures] using carried
  | cons c s ih =>
      have hrest : ∀ {bytes b'}, Carried slow b bytes b' →
          (board slow sources).Ensures
            (uartPutc fuel (c.setWidth 32) >>= fun _ => uartPuts fuel s)
            (fun _ => Carried slow b (bytes ++ (c :: crlfBytes s))) b' := by
        intro bytes b' carried
        refine Device.ensures_bind.mpr
          (Device.ensures_mono (ensures_putc hfuel _ carried) fun _ b₁ carried₁ => ?_)
        simpa [setWidth_byte] using ih carried₁
      by_cases hnewline : c = ascii '\n'
      · subst hnewline
        rw [uartPuts, if_pos rfl, crlfBytes_newline]
        refine Device.ensures_bind.mpr
          (Device.ensures_mono (ensures_putc hfuel _ carried) fun _ b₁ carried₁ => ?_)
        simpa only [setWidth_byte, List.append_assoc, List.singleton_append] using hrest carried₁
      · rw [uartPuts, if_neg hnewline, crlfBytes_other hnewline]
        exact hrest carried

/-! ## The start of the UART -/

/-- What `uartinit` leaves: `cleared` is the byte that was waiting, if it did not get out. -/
structure Initialized (slow : Nat) (b b' : Board) (cleared : List Byte) : Prop where
  ready : b'.Ready slow
  idle : b'.thr = none
  ier : b'.ier = 0x03
  lcr : b'.lcr = 0x03
  divisor : b'.divisor = (0x03, 0x00)
  sent : b'.line ++ cleared = b.line ++ b.thr.toList
  lost : b'.lost = b.lost ++ cleared
  length : cleared.length ≤ 1

theorem ensures_uartinit (hbusy : b.busy ≤ slow) :
    (board slow sources).Ensures uartinit (fun _ b' => ∃ cleared, Initialized slow b b' cleared)
      b := by
  refine Device.ensures_bind.mpr (ensures_writeReg fun {b₁ c₁} hmoves₁ hwrite₁ => ?_)
  have kept₁ := moves_kept hmoves₁
  have hc₁ : c₁.line ++ c₁.thr.toList = b.line ++ b.thr.toList ∧ c₁.lost = b.lost ∧
      c₁.busy = b.busy := by
    simp only [Board.Writes, at_ier] at hwrite₁
    subst hwrite₁
    split <;> exact ⟨kept₁.sent, kept₁.lost, kept₁.busy⟩
  clear hwrite₁
  obtain ⟨hsent, hlost, hbusy₁⟩ := hc₁
  -- the divisor latch
  refine Device.ensures_bind.mpr (ensures_writeReg fun {b₂ c₂} hmoves₂ hwrite₂ => ?_)
  have kept₂ := moves_kept hmoves₂
  simp only [Board.Writes, at_lcr] at hwrite₂
  subst hwrite₂
  refine Device.ensures_bind.mpr (ensures_writeReg fun {b₃ c₃} hmoves₃ hwrite₃ => ?_)
  have kept₃ := moves_kept hmoves₃
  have hlcr₃ : b₃.lcr = 0x80 := kept₃.lcr.trans (by simp)
  have hlatched₃ : b₃.latched = true := by rw [Board.latched, hlcr₃]; rfl
  simp only [Board.Writes, show Register.at (reg 0) = some .data from at_data, hlatched₃, if_true]
    at hwrite₃
  subst hwrite₃
  refine Device.ensures_bind.mpr (ensures_writeReg fun {b₄ c₄} hmoves₄ hwrite₄ => ?_)
  have kept₄ := moves_kept hmoves₄
  have hlatched₄ : b₄.latched = true := by rw [Board.latched, kept₄.lcr, hlcr₃]; rfl
  simp only [Board.Writes, show Register.at (reg 1) = some .ier from at_ier, hlatched₄, if_true]
    at hwrite₄
  subst hwrite₄
  -- out of it again
  refine Device.ensures_bind.mpr (ensures_writeReg fun {b₅ c₅} hmoves₅ hwrite₅ => ?_)
  have kept₅ := moves_kept hmoves₅
  simp only [Board.Writes, at_lcr] at hwrite₅
  subst hwrite₅
  refine Device.ensures_bind.mpr (ensures_writeReg fun {b₆ c₆} hmoves₆ hwrite₆ => ?_)
  have kept₆ := moves_kept hmoves₆
  simp only [Board.Writes, at_fcr] at hwrite₆
  subst hwrite₆
  refine ensures_writeReg fun {b₇ c₇} hmoves₇ hwrite₇ => ?_
  have kept₇ := moves_kept hmoves₇
  have hlcr₇ : b₇.lcr = 0x03 := (kept₇.lcr.trans kept₆.lcr).trans (by simp)
  have hlatched₇ : b₇.latched = false := by rw [Board.latched, hlcr₇]; rfl
  simp only [Board.Writes, at_ier, hlatched₇, Bool.false_eq_true, if_false] at hwrite₇
  subst hwrite₇
  have hidle : b₇.thr = none := moves_thr hmoves₇ rfl
  have hline : b₇.line = b₆.line := by simpa [hidle] using kept₇.sent
  have hbusy₇ : b₇.busy = b.busy := by
    rw [kept₇.busy, kept₆.busy, kept₅.busy, kept₄.busy, kept₃.busy, kept₂.busy, hbusy₁]
  have hsent₆ : b₆.line ++ b₆.thr.toList = b.line ++ b.thr.toList := by
    rw [kept₆.sent, kept₅.sent, kept₄.sent, kept₃.sent, kept₂.sent, hsent]
  have hlost₆ : b₆.lost = b.lost := by
    rw [kept₆.lost, kept₅.lost, kept₄.lost, kept₃.lost, kept₂.lost, hlost]
  refine ⟨b₆.thr.toList, ⟨hlatched₇, hbusy₇.trans_le hbusy⟩, hidle, by simp, hlcr₇, ?_, ?_, ?_,
    ?_⟩
  · change b₇.divisor = _
    rw [kept₇.divisor, kept₆.divisor, kept₅.divisor]
    simp [kept₄.divisor]
  · change b₇.line ++ _ = _
    rw [hline, hsent₆]
  · change b₇.lost = _
    rw [kept₇.lost, ← hlost₆]
    rfl
  · cases b₆.thr <;> simp

/-- `uartinit` gives up at most the byte that was waiting; from then on all that `uart_puts`
is called with goes out, once and in order. -/
theorem uart_loses_nothing (hfuel : slow < fuel) (hbusy : b.busy ≤ slow)
    (texts : List (List Byte)) :
    (board slow sources).Ensures
      (uartinit >>= fun _ => Program.forEach texts (uartPuts fuel))
      (fun _ b' => ∃ earlier cleared, earlier ++ cleared = b.line ++ b.thr.toList ∧
        cleared.length ≤ 1 ∧ b'.lost = b.lost ++ cleared ∧
        b'.line ++ b'.thr.toList = earlier ++ texts.flatMap crlfBytes) b := by
  refine Device.ensures_bind.mpr (Device.ensures_mono (ensures_uartinit hbusy) ?_)
  rintro - b₁ ⟨cleared, init⟩
  have printed : (board slow sources).Ensures (Program.forEach texts (uartPuts fuel))
      (fun _ => Carried slow b₁ (([] ++ texts).flatMap crlfBytes)) b₁ :=
    Device.ensures_forEach (K := fun past => Carried slow b₁ (past.flatMap crlfBytes))
      (fun past text b' carried => by simpa using ensures_uartPuts hfuel text carried)
      texts [] (Carried.refl init.ready)
  refine Device.ensures_mono printed fun _ b₂ carried => ?_
  refine ⟨b₁.line, cleared, init.sent, init.length, carried.lost.trans init.lost, ?_⟩
  rw [carried.sent, init.idle]
  simp

theorem board_responds : (board slow sources).Responds := by
  intro β i b hi
  cases i with
  | panic | diverge => exact hi.elim
  | write address v =>
      refine ⟨b, (), ?_⟩
      have hwrite : ∃ b', b.Writes slow address v b' := by
        unfold Board.Writes
        split
        · split
          · exact ⟨_, rfl⟩
          · exact ⟨_, 0, Nat.zero_le _, rfl⟩
        all_goals exact ⟨_, rfl⟩
      obtain ⟨b', hb'⟩ := hwrite
      exact ⟨b', .refl, hb'⟩
  | read address =>
      change ∃ b₁ v b₂, _ ∧ Board.Reads b₁ address v b₂
      by_cases hlsr : Register.at address = some .lsr
      · -- the transmitter may have to be waited for
        have hidle : ∃ b₁, ReflTransGen (Board.Moves sources) b b₁ ∧ b₁.thr = none := by
          cases hthr : b.thr with
          | none => exact ⟨b, .refl, hthr⟩
          | some c => exact ⟨_, .single (.shift c hthr), rfl⟩
        obtain ⟨b₁, hmoves, hthr⟩ := hidle
        refine ⟨b₁, if b₁.rx = [] then 0x20 else 0x21, b₁, hmoves, ?_⟩
        simp only [Board.Reads, hlsr]
        split <;> simp_all
      have hread : ∃ v b', b.Reads address v b' := by
        unfold Board.Reads
        split
        · split
          · exact ⟨0, _, rfl⟩
          · split
            · exact ⟨0, _, rfl⟩
            · exact ⟨_, _, rfl, rfl⟩
        · exact absurd ‹_› hlsr
        · by_cases hpending : ∃ irq ≠ 0, b.pending irq = true
          · obtain ⟨irq, hne, hirq⟩ := hpending
            exact ⟨irq, _, .inr ⟨hne, hirq, rfl⟩⟩
          · refine ⟨0, b, .inl ⟨rfl, rfl, fun irq hne => ?_⟩⟩
            simpa using fun h => hpending ⟨irq, hne, h⟩
        all_goals exact ⟨0, _, rfl⟩
      obtain ⟨v, b', hb'⟩ := hread
      exact ⟨b, v, b', .refl, hb'⟩

/-- Nothing has happened yet. -/
def Board.still : Board where
  thr := none
  busy := 0
  line := []
  lost := []
  rx := []
  wire := []
  taken := []
  ier := 0
  lcr := 0
  divisor := (0, 0)
  pending _ := false
  claimed _ := false

/-- One line of text over a UART that may take three looks at `LSR` for a byte. -/
theorem uart_loses_nothing_sample : ∃ b' : Board,
    b'.line ++ b'.thr.toList = [ascii 'H', ascii 'i', ascii '\r', ascii '\n'] := by
  have ensured : (board 3 fun _ => True).Ensures _ _ Board.still :=
    uart_loses_nothing (b := .still) (Nat.lt_succ_self 3) (by decide)
      [[ascii 'H', ascii 'i', ascii '\n']]
  obtain ⟨-, b', earlier, cleared, hearlier, -, -, hsent⟩ := ensured.exists_end board_responds
  obtain ⟨rfl, rfl⟩ : earlier = [] ∧ cleared = [] := by simpa [Board.still] using hearlier
  exact ⟨b', hsent⟩

/-! ## The receiver -/

theorem moves_input (hmoves : ReflTransGen (Board.Moves sources) b b') :
    b'.rx ++ b'.wire = b.rx ++ b.wire ∧ b.rx <+: b'.rx := by
  induction hmoves with
  | refl => exact ⟨rfl, List.prefix_refl _⟩
  | tail _ hmove ih =>
      cases hmove with
      | shift c hthr => exact ih
      | receive c rest hwire =>
          refine ⟨?_, ih.2.trans (List.prefix_append _ _)⟩
          rw [← ih.1, hwire]
          simp
      | raise irq => exact ih

/-- `uartgetc` takes the next byte, or finds that there is none; the byte 0xff is no `-1`. -/
theorem ensures_uartgetc (carried : Carried slow b bytes b') :
    (board slow sources).Ensures uartgetc (fun c b'' => Carried slow b bytes b'' ∧
      (c = -1 ∧ b''.rx = [] ∨
        c ≠ -1 ∧ (b''.rx ++ b''.wire).length < (b'.rx ++ b'.wire).length)) b' := by
  refine Device.ensures_bind.mpr (ensures_readReg fun {b₁ v b₂} hmoves hread => ?_)
  have carried₁ := carried.moves hmoves
  simp only [Board.Reads, at_lsr] at hread
  obtain ⟨hready, hidle⟩ := hread
  have hb₂ : Carried slow b bytes b₂ ∧ b₂.rx = b₁.rx ∧ b₂.wire = b₁.wire := by
    rcases hidle with ⟨-, -, rfl⟩ | ⟨-, -, -, rfl⟩
    · exact ⟨carried₁, rfl, rfl⟩
    · exact ⟨carried₁.waited, rfl, rfl⟩
  obtain ⟨carried₂, hrx, hwire⟩ := hb₂
  by_cases hempty : b₁.rx = []
  · rw [if_neg fun h => (hready.mp h) hempty]
    exact ⟨carried₂, .inl ⟨rfl, hrx.trans hempty⟩⟩
  · rw [if_pos (hready.mpr hempty)]
    refine ensures_readReg fun {b₃ c b₄} hmoves' hread => ?_
    have carried₃ := carried₂.moves hmoves'
    obtain ⟨hinput, hfront⟩ := moves_input hmoves'
    simp only [Board.Reads, at_rhr, carried₃.ready.latched, Bool.false_eq_true, if_false] at hread
    cases hrx₃ : b₃.rx with
    | nil =>
        rw [hrx₃, hrx, List.prefix_nil] at hfront
        exact absurd hfront hempty
    | cons first rest =>
        simp only [hrx₃] at hread
        obtain ⟨rfl, rfl⟩ := hread
        refine ⟨{ carried₃ with
          ready := ⟨carried₃.ready.latched, carried₃.ready.busy⟩
          received := by rw [← carried₃.received, hrx₃]; simp
          fifo := by simpa [hrx₃] using carried₃.fifo }, .inr ⟨?_, ?_⟩⟩
        · intro heq
          have hlt := first.isLt
          have hnat := congrArg BitVec.toNat heq
          rw [BitVec.toNat_setWidth_of_le (by decide)] at hnat
          simp only [BitVec.reduceNeg, BitVec.reduceToNat] at hnat
          omega
        · rw [← (moves_input hmoves).1, ← hrx, ← hwire, ← hinput, hrx₃]
          simp

/-- The loop ends with the FIFO empty. -/
theorem ensures_uartIntrLoop (carried : Carried slow b bytes b')
    (hfuel : (b'.rx ++ b'.wire).length < fuel) :
    (board slow sources).Ensures (uartIntrLoop fuel)
      (fun _ b'' => Carried slow b bytes b'' ∧ b''.rx = []) b' := by
  induction fuel generalizing b' with
  | zero => omega
  | succ fuel ih =>
      refine Device.ensures_bind.mpr
        (Device.ensures_mono (ensures_uartgetc carried) fun c b₁ => ?_)
      rintro ⟨carried₁, ⟨rfl, hempty⟩ | ⟨hne, hfewer⟩⟩
      · exact ⟨carried₁, hempty⟩
      · rw [if_neg hne]
        exact ih carried₁ (by omega)

theorem ensures_uartIntr (carried : Carried slow b bytes b')
    (hfuel : (b'.rx ++ b'.wire).length < fuel) :
    (board slow sources).Ensures (uartIntr fuel)
      (fun _ b'' => Carried slow b bytes b'' ∧ b''.rx = []) b' := by
  refine Device.ensures_bind.mpr (ensures_readReg fun {b₁ v b₂} hmoves hread => ?_)
  simp only [Board.Reads, at_isr] at hread
  subst hread
  exact ensures_uartIntrLoop (carried.moves hmoves) ((moves_input hmoves).1 ▸ hfuel)

/-! ## devintr -/

/-- What the handler prints of an external interrupt. -/
def complaint (irq : CInt) : List Byte :=
  if irq = 0 ∨ irq = 10 then []
  else ("unexpected interrupt irq=" ++ decimal irq ++ "\n").toList.map ascii

theorem ensures_printf (hfuel : slow < fuel) (s : String) (carried : Carried slow b bytes b') :
    (board slow sources).Ensures (printf fuel s)
      (fun _ => Carried slow b (bytes ++ s.toList.map ascii)) b' := by
  have printed : (board slow sources).Ensures (printf fuel s)
      (fun _ => Carried slow b (bytes ++ ([] ++ s.toList).map ascii)) b' :=
    Device.ensures_forEach (K := fun past => Carried slow b (bytes ++ past.map ascii))
      (fun past c b₁ carried₁ => by
        have hbyte : (BitVec.ofNat 32 c.toNat).setWidth 8 = ascii c := by
          rw [BitVec.setWidth_ofNat_of_le (by decide)]
          rfl
        refine Device.ensures_mono (ensures_putc hfuel (BitVec.ofNat 32 c.toNat) carried₁) ?_
        intro _ b₂ carried₂
        rw [hbyte] at carried₂
        simpa using carried₂) s.toList [] (by simpa using carried)
  exact printed

/-- What has come of an external interrupt: the source `irq` asked for it, or none had. -/
structure Handled (sources : CInt → Prop) (b : Board) (irq : CInt) (b' : Board) : Prop where
  asked : irq = 0 ∧ (∀ irq' ≠ 0, b.pending irq' = false) ∨
    irq ≠ 0 ∧ (b.pending irq = true ∨ sources irq)
  sent : b'.line ++ b'.thr.toList = b.line ++ b.thr.toList ++ complaint irq
  lost : b'.lost = b.lost
  received : b'.taken ++ b'.rx ++ b'.wire = b.taken ++ b.rx ++ b.wire
  drained : irq = 10 → b.taken ++ b.rx <+: b'.taken
  /-- No source is left held back, and the other requests stand. -/
  claimed : b'.claimed = b.claimed
  pending : ∀ irq' ≠ irq, b.pending irq' = true → b'.pending irq' = true

theorem moves_pending (hmoves : ReflTransGen (Board.Moves sources) b b') {irq : CInt}
    (hirq : b'.pending irq = true) : b.pending irq = true ∨ sources irq := by
  induction hmoves with
  | refl => exact .inl hirq
  | tail _ hmove ih =>
      cases hmove with
      | shift | receive => exact ih hirq
      | raise irq' hsource hopen =>
          by_cases heq : irq = irq'
          · exact .inr (heq ▸ hsource)
          · exact ih ((Function.update_of_ne heq ..).symm.trans hirq)

/-- The branches of `devintr` behind the claim of `irq`. -/
def serve (fuel : Nat) (irq : CInt) : DevM Unit :=
  if irq = 10 then uartIntr fuel
  else if irq = 1 then .perform (.panic "virtio_disk_intr not implemented in lab 4")
  else if irq ≠ 0 then printf fuel ("unexpected interrupt irq=" ++ decimal irq ++ "\n")
  else pure ()

theorem devintr_external (fuel : Nat) (ticks : CInt) :
    devintr fuel ticks externalCause = plicClaim >>= fun irq => serve fuel irq >>= fun _ =>
      if irq ≠ 0 then plicComplete irq >>= fun _ => pure 1 else pure 1 := by
  rw [devintr, if_pos rfl]
  congr 1
  funext irq
  unfold serve
  split_ifs <;> rfl

theorem ensures_serve (hfuel : slow < fuel) {irq : CInt} (hvirtio : irq ≠ 1)
    (ready : b.Ready slow) (hinput : (b.rx ++ b.wire).length < fuel) :
    (board slow sources).Ensures (serve fuel irq)
      (fun _ b' => Carried slow b (complaint irq) b' ∧ (irq = 10 → b.taken ++ b.rx <+: b'.taken))
      b := by
  unfold serve
  by_cases huart : irq = 10
  · subst huart
    rw [if_pos rfl]
    refine Device.ensures_mono (ensures_uartIntr (.refl ready) hinput) fun _ b₁ => ?_
    rintro ⟨carried, hempty⟩
    exact ⟨carried, fun _ => by simpa [hempty] using carried.fifo⟩
  rw [if_neg huart, if_neg hvirtio]
  by_cases hzero : irq = 0
  · rw [if_neg (not_not.mpr hzero)]
    refine ⟨?_, fun h => absurd h huart⟩
    simpa [complaint, hzero] using Carried.refl ready
  · rw [if_pos hzero]
    refine Device.ensures_mono (ensures_printf hfuel _ (.refl ready)) fun _ b₁ carried => ?_
    rw [complaint, if_neg (not_or.mpr ⟨hzero, huart⟩)]
    exact ⟨carried, fun h => absurd h huart⟩

/-- What `devintr` has done with the cause `scause` when it returns `r`. -/
def Served (slow : Nat) (sources : CInt → Prop) (ticks : CInt) (scause : Word) (b : Board)
    (r : CInt) (b' : Board) : Prop :=
  if scause = externalCause then r = 1 ∧ ∃ irq, Handled sources b irq b'
  else if scause = timerCause then
    r = 2 ∧ Carried slow b (("tick " ++ decimal ticks ++ "\n").toList.map ascii) b'
  else r = 0 ∧ b' = b

/-- An interrupt that is claimed is served and completed, and the others stay. -/
theorem devintr_serves (hfuel : slow < fuel) (hinput : (b.rx ++ b.wire).length < fuel)
    (ready : b.Ready slow) (hopen : ∀ irq, b.claimed irq = false) (hpending : b.pending 1 = false)
    (hsources : ¬ sources 1) (ticks : CInt) (scause : Word) :
    (board slow sources).Ensures (devintr fuel ticks scause)
      (Served slow sources ticks scause b) b := by
  unfold Served
  by_cases hexternal : scause = externalCause
  · subst hexternal
    simp only [if_true]
    rw [devintr_external]
    refine Device.ensures_bind.mpr (ensures_readReg fun {b₁ irq b₂} hmoves hread => ?_)
    have carried₁ := (Carried.refl ready).moves hmoves
    have hinput₁ : (b₁.rx ++ b₁.wire).length < fuel := (moves_input hmoves).1 ▸ hinput
    simp only [Board.Reads, at_claim] at hread
    obtain ⟨rfl, rfl, hnone⟩ | ⟨hne, hirq, rfl⟩ := hread
    · refine Device.ensures_bind.mpr (Device.ensures_mono
        (ensures_serve hfuel (by decide) carried₁.ready hinput₁) fun _ b₃ => ?_)
      rintro ⟨carried₃, -⟩
      have carried := carried₁.trans carried₃
      have hnothing : ∀ irq' ≠ 0, b.pending irq' = false := fun irq' hne =>
        Bool.eq_false_iff.mpr fun h =>
          absurd ((carried₁.pending irq' h).symm.trans (hnone irq' hne)) (by decide)
      exact ⟨rfl, 0, .inl ⟨rfl, hnothing⟩, carried.sent, carried.lost, carried.received, by simp,
        carried.claimed, fun irq' _ => carried.pending irq'⟩
    · have hasked := moves_pending hmoves hirq
      have hvirtio : irq ≠ 1 := by
        rintro rfl
        rcases hasked with h | h
        · exact absurd (h.symm.trans hpending) (by decide)
        · exact hsources h
      refine Device.ensures_bind.mpr (Device.ensures_mono (ensures_serve hfuel hvirtio
        ⟨carried₁.ready.latched, carried₁.ready.busy⟩ hinput₁) fun _ b₃ => ?_)
      rintro ⟨carried₃, hdrained⟩
      rw [if_pos hne]
      refine Device.ensures_bind.mpr (ensures_writeReg fun {b₄ b₅} hmoves' hwrite => ?_)
      have carried₄ := carried₃.moves hmoves'
      simp only [Board.Writes, at_claim] at hwrite
      subst hwrite
      refine ⟨rfl, irq, .inr ⟨hne, hasked⟩, ?_, carried₄.lost.trans carried₁.lost,
        carried₄.received.trans carried₁.received, fun huart => ?_, ?_,
        fun irq' hother hpending' => ?_⟩
      · have hsent := carried₁.sent
        rw [List.append_nil] at hsent
        exact carried₄.sent.trans (congrArg (· ++ complaint irq) hsent)
      · have htaken := (moves_kept hmoves').taken
        exact (carried₁.fifo.trans (hdrained huart)).trans (htaken ▸ List.prefix_refl _)
      · have hclosed : b₁.claimed irq = false := by rw [carried₁.claimed, hopen]
        change Function.update b₄.claimed irq false = _
        rw [carried₄.claimed, Function.update_idem, ← hclosed, Function.update_eq_self,
          carried₁.claimed]
      · refine carried₄.pending irq' ?_
        exact (Function.update_of_ne hother ..).trans (carried₁.pending irq' hpending')
  · simp only [if_neg hexternal, devintr]
    by_cases htimer : scause = timerCause
    · simp only [if_pos htimer]
      refine Device.ensures_bind.mpr
        (Device.ensures_mono (ensures_printf hfuel _ (.refl ready)) fun _ b₁ carried => ?_)
      exact ⟨rfl, carried⟩
    · simp only [if_neg htimer]
      exact ⟨rfl, rfl⟩

/-- A character has arrived, and the UART asks for attention. -/
def Board.rung : Board :=
  { Board.still with rx := [ascii 'x'], pending := fun irq => irq = 10 }

theorem devintr_serves_sample : ∃ b' : Board, b'.taken = [ascii 'x'] := by
  have ensured : (board 0 fun _ => False).Ensures (devintr 2 0 externalCause) _ Board.rung :=
    devintr_serves (by decide) (by decide) ⟨by decide, by decide⟩ (fun _ => rfl) (by decide) id
      0 externalCause
  obtain ⟨r, b', hserved⟩ := ensured.exists_end board_responds
  obtain ⟨-, irq, handled⟩ : r = 1 ∧ ∃ irq, Handled (fun _ => False) Board.rung irq b' := hserved
  have huart : irq = 10 := by
    rcases handled.asked with ⟨-, hnone⟩ | ⟨-, hirq | hsource⟩
    · exact absurd (hnone 10 (by decide)) (by decide)
    · exact of_decide_eq_true hirq
    · exact hsource.elim
  have hfront : [ascii 'x'] <+: b'.taken := handled.drained huart
  have hall : b'.taken ++ b'.rx ++ b'.wire = [ascii 'x'] := handled.received
  have hlength := congrArg List.length hall
  simp only [List.length_append, List.length_singleton] at hlength
  exact ⟨b', (hfront.eq_of_length_le (by simp only [List.length_singleton]; omega)).symm⟩

end Xv6Kernel.Process.Devices
