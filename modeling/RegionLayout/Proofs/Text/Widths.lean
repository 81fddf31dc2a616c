-- The width of a text. It is never negative, and it is at most what the characters count one by one
-- and the characters that are miscounted. A text without width, put before another, adds nothing to
-- it; and a space keeps what stands on its two sides apart.
import RegionLayout.Proofs.Text.Cells
import RegionLayout.Proofs.Text.Words

namespace RegionLayout.Text

variable {c : Char} {s t z : List Char}

/-! ## From the end to the start -/

/-- The cells of a text, before they are taken for a natural number. -/
def total (s : List Char) : Int := (widthIn s).1

/-- What a text is to the character before it. -/
def contextOf (s : List Char) : Context := (widthIn s).2

@[simp] theorem total_nil : total [] = 0 := rfl

theorem total_cons (c : Char) (s : List Char) :
    total (c :: s) = (widthBefore c (contextOf s)).1 + total s := rfl

theorem contextOf_cons (c : Char) (s : List Char) :
    contextOf (c :: s) = (widthBefore c (contextOf s)).2 := rfl

/-- A selector is the first character of what stands right. -/
theorem head?_of_selector (h : (contextOf s).selector = some .picture) :
    s.head? = some pictureSelector := by
  cases s with
  | nil => cases h
  | cons c s =>
    rw [contextOf_cons] at h
    unfold widthBefore at h
    split at h
    · cases h
    · split at h
      · cases h
      · split at h
        · rename_i p hp
          obtain rfl : p = .picture := Option.some.inj h
          unfold Presentation.ofSelector? at hp
          split at hp
          · cases hp
          · split at hp
            · rename_i hc
              rw [List.head?_cons, pictureSelector, ← hc, Char.ofNat_toNat]
            · cases hp
        · split at h
          · cases h
          · cases h

theorem adds_cons (c : Char) (s : List Char) :
    Context.Adds c s.head? (contextOf s) (widthBefore c (contextOf s)).1 (contextOf (c :: s)) :=
  Context.adds_widthBefore head?_of_selector

/-- A text has counted what its first characters can still give back. -/
theorem debt_le_total (s : List Char) : (contextOf s).neighbour.debt ≤ total s := by
  induction s with
  | nil => exact Int.le_refl 0
  | cons c s ih =>
    have := (adds_cons c s).settled
    rw [total_cons]
    omega

theorem total_nonneg (s : List Char) : 0 ≤ total s :=
  Int.le_trans (Neighbour.debt_nonneg _) (debt_le_total s)

theorem displayWidth_eq (h : ∀ c ∈ s, IsPlain c) : (displayWidth s : Int) = total s := by
  rw [displayWidth, strip_of_plain h]
  exact Int.toNat_of_nonneg (total_nonneg s)

/-! ## One character after the other -/

/-- The cells of the characters by themselves. -/
def counted : List Char → Nat
  | [] => 0
  | c :: s => lone c + counted s

/-- How many characters of a text take a cell more in it than by themselves. -/
def miscounted : List Char → Nat
  | [] => 0
  | c :: s => (isMiscounted c s.head?).toNat + miscounted s

@[simp] theorem counted_nil : counted [] = 0 := rfl

@[simp] theorem counted_cons (c : Char) (s : List Char) :
    counted (c :: s) = lone c + counted s := rfl

@[simp] theorem counted_append (s t : List Char) : counted (s ++ t) = counted s + counted t := by
  induction s with
  | nil => simp
  | cons c s ih => simp [ih, Nat.add_assoc]

theorem counted_replicate (n : Nat) (c : Char) : counted (List.replicate n c) = n * lone c := by
  induction n with
  | zero => simp
  | succ n ih => rw [List.replicate_succ, counted_cons, ih, Nat.succ_mul, Nat.add_comm]

theorem isMiscounted_mono {next next' : Option Char}
    (h : next = some pictureSelector → next' = next) :
    (isMiscounted c next).toNat ≤ (isMiscounted c next').toNat := by
  unfold isMiscounted
  by_cases hn : next = some pictureSelector
  · rw [h hn]
  · have : (next == some pictureSelector) = false := by simpa using hn
    rw [this, Bool.and_false, Bool.or_false]
    cases isControl c <;> simp

theorem miscounted_append_le (s t : List Char) :
    miscounted s + miscounted t ≤ miscounted (s ++ t) := by
  induction s with
  | nil => simp [miscounted]
  | cons c s ih =>
    have hhead : (isMiscounted c s.head?).toNat ≤ (isMiscounted c (s ++ t).head?).toNat := by
      refine isMiscounted_mono fun h => ?_
      rw [List.head?_append, h]
      rfl
    simp only [miscounted, List.cons_append]
    omega

/-- A text is no wider than its characters and what they are miscounted by. -/
theorem total_le (s : List Char) : total s ≤ counted s + miscounted s := by
  have hcredit : total s + (contextOf s).neighbour.credit ≤ counted s + miscounted s := by
    induction s with
    | nil => exact Int.le_refl 0
    | cons c s ih =>
      have := (adds_cons c s).counted
      rw [total_cons, counted_cons, miscounted]
      omega
  have := (contextOf s).neighbour.credit_nonneg
  omega

/-! ## Texts without a width -/

/-- A text that, put before another, adds at most what is miscounted in it. -/
def Idle (z : List Char) : Prop := ∀ s, total (z ++ s) ≤ total s + miscounted z

theorem idle_nil : Idle [] := fun s => by simp [miscounted]

theorem Idle.append {y : List Char} (hy : Idle y) (hz : Idle z) : Idle (y ++ z) := by
  intro s
  have hfirst := hy (z ++ s)
  have hsecond := hz s
  have := miscounted_append_le y z
  rw [List.append_assoc]
  omega

theorem Idle.total_le (h : Idle z) : total z ≤ miscounted z := by
  simpa using h []

/-- Characters that count nothing by themselves. -/
theorem idle_of_counted (h : counted z = 0) : Idle z := by
  intro s
  induction z with
  | nil => simp [miscounted]
  | cons c z ih =>
    rw [counted_cons] at h
    have hstep := (adds_cons c (z ++ s)).idle (by omega)
    have hrest := ih (by omega)
    have hcontrol : (isControl c).toNat ≤ (isMiscounted c z.head?).toNat := by
      unfold isMiscounted
      cases isControl c <;> simp
    rw [List.cons_append, total_cons, miscounted]
    omega

theorem widthBefore_of_low (h : c.toNat < 0x20) (right : Context) :
    widthBefore c right = (0, .start) := by
  have hbase : presentationBase.holds c = false := by
    by_contra hc
    have := not_control_of_base (by simpa using hc)
    simp [isControl, h] at this
  unfold widthBefore
  rw [hbase, if_pos (show c.toNat ≤ 0xA0 by omega), if_pos h]
  simp

theorem cells_selector {p : Presentation} (h : Presentation.ofSelector? c = some p) :
    cells c = 0 ∧ isControl c = false := by
  unfold Presentation.ofSelector? at h
  split at h
  · rename_i hc
    obtain rfl : c = Char.ofNat 0xFE0E := by rw [← hc, Char.ofNat_toNat]
    decide +kernel
  · split at h
    · rename_i hc
      obtain rfl : c = Char.ofNat 0xFE0F := by rw [← hc, Char.ofNat_toNat]
      decide +kernel
    · cases h

/-- A character that leaves nothing settled behind: it has no width, or what it adds does not hang
on what stands right of it. -/
theorem widthBefore_of_plain {right : Context} (hplain : right.neighbour = .plain)
    (h : (widthBefore c right).1 = (widthBefore c right).2.neighbour.debt) :
    (lone c = 0 ∧ isControl c = false ∧ (widthBefore c right).2.neighbour = .plain) ∨
      ∀ right', widthBefore c right' = widthBefore c right := by
  by_cases hlow : c.toNat < 0x20
  · exact .inr fun right' => by rw [widthBefore_of_low hlow, widthBefore_of_low hlow]
  have hvisible : right.visible = .plain := by
    unfold Context.visible
    rw [hplain]
    exact ite_self _
  cases hr : widthBefore c right with
  | mk k left =>
    rw [hr] at h
    dsimp only at h ⊢
    unfold widthBefore at hr
    split at hr
    · rw [hplain] at hr
      cases hr
      cases h
    · split at hr
      · cases hr
        cases h
      · rename_i hhigh
        split at hr
        · rename_i p hp
          cases hr
          obtain ⟨hcells, hcontrol⟩ := cells_selector hp
          refine .inl ⟨(lone_of_not_control hcontrol).trans hcells, hcontrol, ?_⟩
          unfold Context.withSelector
          rw [hvisible]
          exact ite_self _
        · split at hr
          · cases hr
            cases h
          · rw [hvisible] at hr
            cases hr
            by_cases hdebt : (Neighbour.ofChar c).debt = 0
            · have hcells : cells c = 0 := by
                rw [hdebt] at h
                exact Int.ofNat_eq_zero.1 h
              have hcontrol : isControl c = false := by
                simp [isControl]
                omega
              exact .inl ⟨(lone_of_not_control hcontrol).trans hcells, hcontrol,
                Neighbour.ofChar_eq_plain hcells⟩
            · obtain ⟨hc, -⟩ := Neighbour.ofChar_of_debt hdebt
              exact .inr fun right' => widthBefore_subscript hc right'

/-- Where a text has settled nothing, what it adds before another is what it was by itself, or it
has come to nothing so far. -/
theorem total_append_of_settled (h : total z = (contextOf z).neighbour.debt) (s : List Char) :
    ((contextOf z).neighbour = .plain ∧ total (z ++ s) ≤ total s) ∨
      (contextOf (z ++ s) = contextOf z ∧ total (z ++ s) ≤ total z + total s) := by
  induction z with
  | nil => exact .inl ⟨rfl, Int.le_refl _⟩
  | cons c z ih =>
    have hsettled := (adds_cons c z).settled
    have hrest := debt_le_total z
    rw [total_cons] at h
    have hz : total z = (contextOf z).neighbour.debt := by omega
    rw [List.cons_append, total_cons, total_cons, contextOf_cons, contextOf_cons]
    rcases ih hz with ⟨hplain, hle⟩ | ⟨hsame, hle⟩
    · have hnone : (contextOf z).neighbour.debt = 0 := by rw [hplain]; rfl
      rcases widthBefore_of_plain (c := c) hplain (by rw [contextOf_cons] at h; omega) with
        ⟨hlone, hcontrol, hleft⟩ | hall
      · have hidle := (adds_cons c (z ++ s)).idle hlone
        rw [hcontrol] at hidle
        exact .inl ⟨hleft, by simp at hidle; omega⟩
      · rw [hall (contextOf (z ++ s))]
        exact .inr ⟨rfl, by omega⟩
    · rw [hsame]
      exact .inr ⟨rfl, by omega⟩

theorem idle_of_total (h : total z = 0) : Idle z := by
  intro s
  have hdebt := debt_le_total z
  have hnonneg := (contextOf z).neighbour.debt_nonneg
  have hsettled : total z = (contextOf z).neighbour.debt := by omega
  rcases total_append_of_settled hsettled s with ⟨-, hle⟩ | ⟨-, hle⟩
  · omega
  · omega

/-! ## Texts side by side -/

/-- A character of one cell that is measured apart from all around it. -/
theorem widthBefore_of_narrow (hlow : 0x20 ≤ c.toNat) (hhigh : c.toNat ≤ 0xA0)
    (hbase : presentationBase.holds c = false) (right : Context) :
    widthBefore c right = (1, .start) := by
  unfold widthBefore
  rw [hbase, if_pos hhigh, if_neg (Nat.not_lt.2 hlow)]
  simp

/-- A space is a cell, and what stands on its two sides is measured apart. -/
theorem total_append_space (s t : List Char) : total (s ++ ' ' :: t) = total s + 1 + total t := by
  have hspace : contextOf (' ' :: t) = .start ∧ total (' ' :: t) = 1 + total t := by
    rw [contextOf_cons, total_cons, widthBefore_of_narrow (by decide) (by decide) (by decide)]
    exact ⟨rfl, rfl⟩
  have happend : contextOf (s ++ ' ' :: t) = contextOf s ∧
      total (s ++ ' ' :: t) = total s + total (' ' :: t) := by
    induction s with
    | nil => exact ⟨hspace.1, by simp⟩
    | cons c s ih =>
      rw [List.cons_append, contextOf_cons, contextOf_cons, total_cons, total_cons, ih.1, ih.2]
      exact ⟨rfl, by omega⟩
  rw [happend.2, hspace.2]
  omega

end RegionLayout.Text
