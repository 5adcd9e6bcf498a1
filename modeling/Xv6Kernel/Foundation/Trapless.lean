import Xv6Kernel.Foundation.Interleaving

/-!
# Triples for harts that take no traps

Between two instructions of such a hart only the others come, so that an assertion which
they keep can be proved of each instruction by itself.
-/

namespace Xv6Kernel.Foundation

variable {I : Type → Type 1} {H C W : Type} {α β : Type}

namespace Logic

variable {P : Platform I H C W}

structure Trapless (L : Logic P) : Prop where
  trap : ∀ {h w w'}, ¬ P.trap h w w'
  refl : ∀ h w, L.Rely h w w
  trans : ∀ {h w w' w''}, L.Rely h w w' → L.Rely h w' w'' → L.Rely h w w''

theorem Trapless.env {L : Logic P} (trapless : L.Trapless) {h h' : H} {w w' : W}
    (env : L.Env h w h' w') : h' = h ∧ L.Rely h w w' := by
  induction env with
  | refl => exact ⟨rfl, trapless.refl h w⟩
  | rely _ others _ ih =>
      obtain ⟨rfl, before⟩ := ih
      exact ⟨rfl, trapless.trans before others⟩
  | preempt _ trap => exact absurd trap trapless.trap

/-- The other harts keep the assertion. -/
def Steady (L : Logic P) (h : H) (pre : W → Prop) : Prop :=
  ∀ {w w'}, pre w → L.Rely h w w' → pre w'

variable [DecidableEq H]

structure Triple (L : Logic P) (h : H) (pre : W → Prop) (program : Program I α)
    (post : α → W → Prop) : Prop where
  wp : ∀ w, L.Inv w → pre w → L.wp program (fun value h' w' => h' = h ∧ post value w') h w

namespace Triple

variable {L : Logic P} {h : H} {pre : W → Prop} {post : α → W → Prop}
  {last : β → W → Prop} {program program' : Program I α} {rest : α → Program I β}

theorem done {value : α} (hpost : ∀ w, pre w → post value w) :
    L.Triple h pre (.done value) post where
  wp w _ hpre := ⟨rfl, hpost w hpre⟩

theorem bind (hprogram : L.Triple h pre program post)
    (hrest : ∀ value, L.Triple h (post value) (rest value) last) :
    L.Triple h pre (program >>= rest) last where
  wp w inv hpre := by
    rw [wp_bind]
    refine wp_mono inv (fun value h' w' inv' hmid => ?_) (hprogram.wp w inv hpre)
    obtain ⟨rfl, hmid⟩ := hmid
    exact (hrest value).wp w' inv' hmid

theorem weaken {post' : α → W → Prop} (hprogram : L.Triple h pre program post)
    (hpost : ∀ value w, post value w → post' value w) : L.Triple h pre program post' where
  wp w inv hpre := wp_mono inv (fun value _ w' _ hlast => ⟨hlast.1, hpost value w' hlast.2⟩)
    (hprogram.wp w inv hpre)

/-- What follows from the assertion, though it is not about the world. -/
theorem learn {fact : Prop} (hfact : ∀ w, L.Inv w → pre w → fact)
    (hprogram : fact → L.Triple h pre program post) : L.Triple h pre program post where
  wp w inv hpre := (hprogram (hfact w inv hpre)).wp w inv hpre

theorem known {fact : Prop} (hprogram : fact → L.Triple h pre program post) :
    L.Triple h (fun w => pre w ∧ fact) program post where
  wp w inv hpre := (hprogram hpre.2).wp w inv hpre.1

theorem unpack {ι : Type} {each : ι → W → Prop}
    (hprogram : ∀ x, L.Triple h (each x) program post) :
    L.Triple h (fun w => ∃ x, each x w) program post where
  wp w inv hpre := by
    obtain ⟨x, hx⟩ := hpre
    exact (hprogram x).wp w inv hx

theorem ite {c : Prop} [Decidable c] (hthen : c → L.Triple h pre program post)
    (helse : ¬ c → L.Triple h pre program' post) :
    L.Triple h pre (if c then program else program') post := by
  by_cases hc : c
  · rw [if_pos hc]
    exact hthen hc
  · rw [if_neg hc]
    exact helse hc

theorem atomic (trapless : L.Trapless) {i : I α} {act : H → W → α × W}
    (heffect : P.effect i = .atomic act) (steady : L.Steady h pre)
    (hact : ∀ w, L.Inv w → pre w →
      L.Guarantee h w (act h w).2 ∧ post (act h w).1 (act h w).2) :
    L.Triple h pre (.perform i) post where
  wp w _ hpre h' w' env inv' := by
    obtain ⟨rfl, rely⟩ := trapless.env env
    obtain ⟨guarantee, hpost⟩ := hact w' inv' (steady hpre rely)
    rw [Does, heffect]
    exact ⟨guarantee, rfl, hpost⟩

theorem call (trapless : L.Trapless) {i : I α} {body : Program I α}
    (heffect : P.effect i = .call body) (steady : L.Steady h pre)
    (hcall : ∀ w, L.Inv w → pre w → L.pre i h w)
    (hpost : ∀ w value h' w', pre w → L.post i h w value h' w' → h' = h ∧ post value w') :
    L.Triple h pre (.perform i) post where
  wp w _ hpre h' w' env inv' := by
    obtain ⟨rfl, rely⟩ := trapless.env env
    have hthere := steady hpre rely
    rw [Does, heffect]
    exact ⟨hcall w' inv' hthere,
      fun value h'' w'' _ hreturn => hpost w' value h'' w'' hthere hreturn⟩

theorem choose (trapless : L.Trapless) {i : I α} (heffect : P.effect i = .choose)
    (steady : L.Steady h pre) : L.Triple h pre (.perform i) fun _ => pre where
  wp w _ hpre h' w' env inv' := by
    obtain ⟨rfl, rely⟩ := trapless.env env
    rw [Does, heffect]
    exact fun value => ⟨rfl, steady hpre rely⟩

theorem halt {i : I α} {message : String} (heffect : P.effect i = .halt message)
    (may : L.MayHalt message) : L.Triple h pre (.perform i) post where
  wp w _ _ h' w' _ _ := by
    rw [Does, heffect]
    exact may

theorem forEach {ι : Type} {items : List ι} {body : ι → Program I Unit}
    (hbody : ∀ item, L.Triple h pre (body item) fun _ => pre) :
    L.Triple h pre (Program.forEach items body) fun _ => pre := by
  induction items with
  | nil => exact done fun _ hpre => hpre
  | cons item items ih => exact bind (hbody item) fun _ => ih

end Triple

/-- A hart that panics does so with a message of the list. -/
theorem Good.halt {L : Logic P} {m : Config I H C W} (good : L.Good m) {h : H} {i : I β}
    {next : β → Program I Empty} {message : String} (hcode : m.code h = .step i next)
    (heffect : P.effect i = .halt message) : L.MayHalt message := by
  have hdoes := good.does hcode
  rw [Does, heffect] at hdoes
  exact hdoes

end Logic

end Xv6Kernel.Foundation
