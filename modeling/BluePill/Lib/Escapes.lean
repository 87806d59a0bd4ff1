import Mathlib.Tactic

/-! Escaping: symbols that have a meaning of their own are sent as a marker and a masked symbol. -/
namespace BluePill.Lib

variable {α : Type*} (special : α → Prop) (marker : α) (mask : α → α)

/-- The text `e` stands for the payload `p`: a symbol for itself, or a marker with the masked
symbol behind it. A sender may escape more than it has to. -/
inductive Escapes : List α → List α → Prop
  | nil : Escapes [] []
  | plain {c : α} {e p : List α} (hc : ¬ special c) (hrest : Escapes e p) :
      Escapes (c :: e) (c :: p)
  | masked {c : α} {e p : List α} (hrest : Escapes e p) :
      Escapes (marker :: c :: e) (mask c :: p)

/-- Only what has to be is escaped. -/
def escape [DecidablePred special] (p : List α) : List α :=
  p.flatMap fun c => if special c then [marker, mask c] else [c]

variable {special marker mask}

theorem escapes_escape [DecidablePred special] (hmask : ∀ c, mask (mask c) = c) (p : List α) :
    Escapes special marker mask (escape special marker mask p) p := by
  induction p with
  | nil => exact .nil
  | cons c p ih =>
    rw [escape, List.flatMap_cons]
    split_ifs with hc
    · have hstep : Escapes special marker mask (marker :: mask c :: escape special marker mask p)
          (mask (mask c) :: p) := .masked ih
      rwa [hmask] at hstep
    · exact .plain hc ih

theorem Escapes.append {e₁ e₂ p₁ p₂ : List α} (h₁ : Escapes special marker mask e₁ p₁)
    (h₂ : Escapes special marker mask e₂ p₂) :
    Escapes special marker mask (e₁ ++ e₂) (p₁ ++ p₂) := by
  induction h₁ with
  | nil => exact h₂
  | plain hc _ ih => exact .plain hc ih
  | masked _ ih => exact .masked ih

end BluePill.Lib
