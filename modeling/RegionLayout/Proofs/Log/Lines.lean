-- An event is written as one line. The text of a JSON value breaks nowhere: the marks between
-- its parts are no line ends, a number has none, and in a quoted text one is escaped.
import RegionLayout.Log.Event
import Mathlib.Data.List.Induction

namespace RegionLayout

open Number

/-- A text without a line end. -/
def OneLine (s : String) : Prop := '\n' ∉ s.toList

namespace OneLine

variable {s s' : String}

instance : Decidable (OneLine s) := inferInstanceAs (Decidable ('\n' ∉ s.toList))

theorem append (h : OneLine s) (h' : OneLine s') : OneLine (s ++ s') := by
  unfold OneLine at *
  simp [h, h']

theorem intercalate (h : OneLine s) {l : List String} (hl : ∀ t ∈ l, OneLine t) :
    OneLine (s.intercalate l) := by
  induction l using List.twoStepInduction with
  | nil => simp [OneLine]
  | singleton t => simpa using hl
  | cons_cons t u l _ ih =>
    rw [String.intercalate_cons_cons]
    exact ((hl t (by simp)).append h).append (ih u fun v hv => hl v (by simp_all))

/-! ## Numbers -/

theorem repr (n : Nat) : OneLine n.repr := by
  intro hn
  rw [Nat.toList_repr] at hn
  have := Nat.isDigit_of_mem_toDigits (by decide) (by decide) hn
  simp at this

theorem int (i : Int) : OneLine (toString i) := by
  cases i with
  | ofNat n => exact repr n
  | negSucc n => exact append (s := "-") (by decide) (repr (n + 1))

theorem zeros (n : Nat) : OneLine (Decimal.zeros n) := by
  simp [OneLine, Decimal.zeros]

theorem take (h : OneLine s) (n : Nat) : OneLine (s.take n).toString := fun hn =>
  h (List.mem_of_mem_take (by simpa using hn))

theorem drop (h : OneLine s) (n : Nat) : OneLine (s.drop n).toString := fun hn =>
  h (List.mem_of_mem_drop (by simpa using hn))

theorem write (d : Decimal) : OneLine (d.write Decimal.json) := by
  have hs := repr d.digits
  unfold Decimal.write
  dsimp only
  split
  · split
    · exact (append (by decide) (zeros _)).append hs
    · split
      · exact (hs.append (zeros _)).append (by decide)
      · exact ((hs.take _).append (by decide)).append (hs.drop _)
  · refine append (append (append ?_ (by decide)) ?_) (int _)
    · split
      · exact hs
      · exact ((hs.take _).append (by decide)).append (hs.drop _)
    · split <;> decide

theorem real (x : Float) : OneLine (Json.realText x) := by
  unfold Json.realText Decimal.writeFloat
  split
  · split
    · decide
    · split <;> decide
    · rename_i m q _
      have hbody : OneLine (if m = 0 then "0" ++ Decimal.json.whole
          else Decimal.write Decimal.json (Decimal.shortest Decimal.json.tie m q)) := by
        split
        · decide
        · exact write _
      dsimp only
      split
      · exact append (by decide) hbody
      · exact hbody
  · decide

/-! ## Values -/

theorem quote (s : String) : OneLine (Json.quote s) := by
  have hescape : ∀ c : Char, '\n' ∉ Json.escapeChar c := by
    intro c
    unfold Json.escapeChar
    split <;> try decide
    rename_i hc _ _
    split
    · have hdigit : ∀ n < 16, Json.hexDigit n ≠ '\n' := by decide
      simp [(hdigit (c.toNat / 16) (by omega)).symm, (hdigit (c.toNat % 16) (by omega)).symm]
    · simpa [eq_comm] using hc
  have hbody : OneLine (String.ofList (s.toList.flatMap Json.escapeChar)) := by
    simp [OneLine, hescape]
  exact (append (by decide) hbody).append (by decide)

mutual

/-- Whatever a value holds, its text is one line. -/
theorem render : (v : Json) → OneLine v.render
  | .null => by unfold Json.render; decide
  | .bool b => by cases b <;> unfold Json.render <;> decide
  | .integer n => by unfold Json.render; exact int n
  | .real x => by unfold Json.render; exact real x
  | .text s => by unfold Json.render; exact quote s
  | .array items => by
    unfold Json.render
    exact (append (by decide) (intercalate (by decide) (renderItems items))).append (by decide)
  | .object members => by
    unfold Json.render
    exact (append (by decide) (intercalate (by decide) (renderMembers members))).append (by decide)

theorem renderItems : (items : List Json) → ∀ t ∈ Json.renderItems items, OneLine t
  | [] => by simp [Json.renderItems]
  | v :: rest => by
    rw [Json.renderItems, List.forall_mem_cons]
    exact ⟨render v, renderItems rest⟩

theorem renderMembers : (members : List (String × Json)) →
    ∀ t ∈ Json.renderMembers members, OneLine t
  | [] => by simp [Json.renderMembers]
  | (k, v) :: rest => by
    rw [Json.renderMembers, List.forall_mem_cons]
    exact ⟨((quote k).append (by decide)).append (render v), renderMembers rest⟩

end

end OneLine

/-- An event is written as one line, whatever its message and fields are. -/
theorem Log.Event.oneLine (e : Log.Event) : OneLine e.line := .render _

end RegionLayout

