import Mathlib.Logic.Basic

/- First fit: every item goes into the first bin that takes it. -/
namespace FirstFit
variable {α β : Type} {fit : β → α → Option α} {item : β} {full rest : List α} {bin filled : α}

/-- fit says what becomes of a bin that takes the item. -/
def place (fit : β → α → Option α) (item : β) : List α → Option (List α)
  | [] => none
  | bin :: rest =>
    match fit item bin with
    | some filled => some (filled :: rest)
    | none => (place fit item rest).map (bin :: ·)

/-- The items in their order. -/
def pack (fit : β → α → Option α) : List β → List α → Option (List α)
  | [], bins => some bins
  | item :: items, bins => (place fit item bins).bind (pack fit items)

theorem place_first (refuse : ∀ b ∈ full, fit item b = none) (here : fit item bin = some filled) :
    place fit item (full ++ bin :: rest) = some (full ++ filled :: rest) := by
  induction full with
  | nil => simp [place, here]
  | cons b full ih =>
    have later := ih fun c member => refuse c (List.mem_cons_of_mem b member)
    simp [place, refuse b List.mem_cons_self, later]

theorem place_none (refuse : ∀ b ∈ full, fit item b = none) : place fit item full = none := by
  induction full with
  | nil => rfl
  | cons b full ih =>
    have later := ih fun c member => refuse c (List.mem_cons_of_mem b member)
    simp [place, refuse b List.mem_cons_self, later]

end FirstFit
