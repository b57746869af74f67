import Binaural.Grid
import Mathlib.Data.List.Forall2

/-!
What a traversal of a grid gives: the same angles with new entries, or the error of the first entry
that has one.

A traversal collects what a function gives in one flat list and fills the rows from it again, each
with as many values as it has azimuths; rows differ in length and may be empty. The statements are
about the flat list `Grid.positioned` and about `Grid.outline`, the angles without their entries; a
grid is determined by the two together (`Grid.eq_of_outline_of_positioned`).

* `Grid.placed_refillRows`: rows filled again hold each value at the place that it was made for.
* `Grid.traverse_eq_ok_iff`: a traversal succeeds with exactly the grid of the same outline whose
  entries are the images of the old ones, place by place.
* `Grid.traverse_eq_error_iff`: it fails with exactly the error at the first place that has one.
-/

namespace Binaural

variable {α β γ δ ε : Type}

/-! ## The first element that fails a test -/

/-- The first element that fails a test, with its index; the indices begin at `start`. -/
def firstFailing? (test : α → Bool) : (start : Nat) → List α → Option (Nat × α)
  | _, [] => none
  | start, x :: rest => if test x then firstFailing? test (start + 1) rest else some (start, x)

section FirstFailing

variable {test : α → Bool} {start index : Nat} {xs : List α} {value : α}

theorem firstFailing?_eq_none_iff :
    firstFailing? test start xs = none ↔ ∀ x ∈ xs, test x = true := by
  induction xs generalizing start with
  | nil => simp [firstFailing?]
  | cons x rest ih =>
      rw [firstFailing?, List.forall_mem_cons]
      cases passed : test x with
      | false => simp
      | true => simp [ih]

/-- The first element that fails stands where all before it pass. -/
theorem firstFailing?_eq_some_iff :
    firstFailing? test start xs = some (index, value) ↔
      ∃ before after, xs = before ++ value :: after ∧ index = start + before.length ∧
        (∀ x ∈ before, test x = true) ∧ test value = false := by
  induction xs generalizing start with
  | nil => simp [firstFailing?]
  | cons x rest ih =>
      rw [firstFailing?]
      cases passed : test x with
      | true =>
          rw [if_pos rfl, ih]
          constructor
          · rintro ⟨before, after, rfl, rfl, all, failed⟩
            refine ⟨x :: before, after, rfl, ?_, List.forall_mem_cons.mpr ⟨passed, all⟩, failed⟩
            rw [List.length_cons]
            omega
          · rintro ⟨before, after, split, rfl, all, failed⟩
            cases before with
            | nil =>
                cases split
                exact absurd (passed.symm.trans failed) Bool.noConfusion
            | cons y before =>
                cases split
                refine ⟨before, after, rfl, ?_, (List.forall_mem_cons.mp all).2, failed⟩
                rw [List.length_cons]
                omega
      | false =>
          rw [if_neg Bool.false_ne_true, Option.some.injEq, Prod.mk.injEq]
          constructor
          · rintro ⟨rfl, rfl⟩
            exact ⟨[], rest, rfl, rfl, by simp, passed⟩
          · rintro ⟨before, after, split, rfl, all, failed⟩
            cases before with
            | nil =>
                cases split
                exact ⟨rfl, rfl⟩
            | cons y before =>
                cases split
                exact absurd (passed.symm.trans (List.forall_mem_cons.mp all).1) Bool.noConfusion

end FirstFailing

/-! ## Flat lists of entries -/

/-- The entries of a row with their places, the first of them at `azimuthIndex`. -/
def Row.placed (elevation : Int) (elevationIndex azimuthCount : Nat) :
    (azimuthIndex : Nat) → List (Int × β) → List (Position × β)
  | _, [] => []
  | azimuthIndex, (azimuth, x) :: rest =>
    (⟨elevation, azimuth, elevationIndex, azimuthIndex, azimuthCount⟩, x) ::
      placed elevation elevationIndex azimuthCount (azimuthIndex + 1) rest

/-- The entries of rows with their places, the first row at `elevationIndex`. -/
def Grid.placed : (elevationIndex : Nat) → List (Row β) → List (Position × β)
  | _, [] => []
  | elevationIndex, row :: rest =>
    Row.placed row.elevation elevationIndex row.entries.length 0 row.entries ++
      placed (elevationIndex + 1) rest

/-- The angles of a grid without its entries. -/
def Grid.outline (g : Grid β) : List (Int × List Int) :=
  g.rows.map fun row => (row.elevation, row.entries.map Prod.fst)

namespace Row

variable {elevation : Int} {elevationIndex azimuthCount : Nat}

theorem mapIdx_eq_placed (azimuthIndex : Nat) (entries : List (Int × β)) :
    (entries.mapIdx fun i entry =>
      ((⟨elevation, entry.1, elevationIndex, azimuthIndex + i, azimuthCount⟩ : Position),
        entry.2)) = placed elevation elevationIndex azimuthCount azimuthIndex entries := by
  induction entries generalizing azimuthIndex with
  | nil => rfl
  | cons entry rest ih =>
      obtain ⟨azimuth, x⟩ := entry
      rw [List.mapIdx_cons, placed, ← ih (azimuthIndex + 1)]
      simp only [Nat.add_zero, Nat.add_assoc, Nat.add_comm 1]

theorem positioned_eq_placed (row : Row β) :
    row.positioned elevationIndex =
      placed row.elevation elevationIndex row.entries.length 0 row.entries := by
  rw [← mapIdx_eq_placed]
  simp only [positioned, Nat.zero_add]

theorem map_snd_placed (azimuthIndex : Nat) (entries : List (Int × β)) :
    (placed elevation elevationIndex azimuthCount azimuthIndex entries).map Prod.snd =
      entries.map Prod.snd := by
  induction entries generalizing azimuthIndex with
  | nil => rfl
  | cons entry rest ih =>
      obtain ⟨azimuth, x⟩ := entry
      rw [placed, List.map_cons, List.map_cons, ih]

theorem placed_map (k : β → γ) (azimuthIndex : Nat) (entries : List (Int × β)) :
    placed elevation elevationIndex azimuthCount azimuthIndex
        (entries.map fun entry => (entry.1, k entry.2)) =
      (placed elevation elevationIndex azimuthCount azimuthIndex entries).map fun entry =>
        (entry.1, k entry.2) := by
  induction entries generalizing azimuthIndex with
  | nil => rfl
  | cons entry rest ih =>
      obtain ⟨azimuth, x⟩ := entry
      rw [List.map_cons, placed, placed, List.map_cons, ih]

/-- Entries are determined by their places. -/
theorem placed_injective {azimuthIndex : Nat} {entries others : List (Int × β)}
    (same : placed elevation elevationIndex azimuthCount azimuthIndex entries =
      placed elevation elevationIndex azimuthCount azimuthIndex others) : entries = others := by
  induction entries generalizing azimuthIndex others with
  | nil =>
      cases others with
      | nil => rfl
      | cons entry rest => simp [placed] at same
  | cons entry rest ih =>
      cases others with
      | nil => simp [placed] at same
      | cons entry' rest' =>
          simp only [placed, List.cons.injEq, Prod.mk.injEq, Position.mk.injEq] at same
          obtain ⟨⟨⟨-, azimuth, -, -, -⟩, value⟩, tail⟩ := same
          rw [ih tail, Prod.ext azimuth value]

end Row

namespace Grid

theorem mapIdx_eq_placed (elevationIndex : Nat) (rows : List (Row β)) :
    (rows.mapIdx fun e row => row.positioned (elevationIndex + e)).flatten =
      placed elevationIndex rows := by
  induction rows generalizing elevationIndex with
  | nil => rfl
  | cons row rest ih =>
      rw [List.mapIdx_cons, List.flatten_cons, placed, ← ih (elevationIndex + 1), Nat.add_zero,
        Row.positioned_eq_placed]
      simp only [Nat.add_assoc, Nat.add_comm 1]

theorem positioned_eq_placed (g : Grid β) : g.positioned = placed 0 g.rows := by
  rw [← mapIdx_eq_placed]
  simp only [positioned, Nat.zero_add]

theorem map_snd_placed (elevationIndex : Nat) (rows : List (Row β)) :
    (placed elevationIndex rows).map Prod.snd =
      rows.flatMap fun row => row.entries.map Prod.snd := by
  induction rows generalizing elevationIndex with
  | nil => rfl
  | cons row rest ih =>
      rw [placed, List.map_append, Row.map_snd_placed, ih, List.flatMap_cons]

theorem map_snd_positioned (g : Grid β) : g.positioned.map Prod.snd = g.values := by
  rw [positioned_eq_placed, map_snd_placed, values]

/-- Rows are determined by their angles and their places. -/
theorem placed_injective {elevationIndex : Nat} {rows others : List (Row β)}
    (outline : (rows.map fun row => (row.elevation, row.entries.map Prod.fst)) =
      others.map fun row => (row.elevation, row.entries.map Prod.fst))
    (same : placed elevationIndex rows = placed elevationIndex others) : rows = others := by
  induction rows generalizing elevationIndex others with
  | nil =>
      rw [List.map_nil, eq_comm, List.map_eq_nil_iff] at outline
      exact outline.symm
  | cons row rest ih =>
      cases others with
      | nil => simp at outline
      | cons row' rest' =>
          simp only [List.map_cons, List.cons.injEq, Prod.mk.injEq] at outline
          obtain ⟨⟨elevation, azimuths⟩, outlineRest⟩ := outline
          have count : row.entries.length = row'.entries.length := by
            simpa using congrArg List.length azimuths
          have places : ∀ {r : Row β},
              (Row.placed r.elevation elevationIndex r.entries.length 0 r.entries).length =
                r.entries.length := by
            intro r
            rw [← List.length_map Prod.snd, Row.map_snd_placed, List.length_map]
          rw [placed, placed] at same
          obtain ⟨head, tail⟩ := List.append_inj same (by rw [places, places, count])
          rw [elevation, count] at head
          have entries := Row.placed_injective head
          cases row
          cases row'
          rw [ih outlineRest tail]
          simp_all

/-- A grid is determined by its angles and its entries with their places. -/
theorem eq_of_outline_of_positioned {g h : Grid β}
    (outline : g.outline = h.outline) (positioned : g.positioned = h.positioned) : g = h := by
  rw [positioned_eq_placed, positioned_eq_placed] at positioned
  exact congrArg Grid.mk (placed_injective outline positioned)

end Grid

/-! ## Images and first errors -/

/-- The second list holds, place by place, what a function gives for the first. -/
def Images (f : Position → β → Except ε γ) :
    List (Position × β) → List (Position × γ) → Prop :=
  List.Forall₂ fun source image => image.1 = source.1 ∧ f source.1 source.2 = .ok image.2

/-- The first place at which a function fails, and the error there: it fails at the head, or gives
something there and fails first in the rest. -/
inductive FirstError (f : Position → β → Except ε γ) : List (Position × β) → ε → Prop
  | here {place : Position × β} {rest : List (Position × β)} {e : ε} :
      f place.1 place.2 = .error e → FirstError f (place :: rest) e
  | later {place : Position × β} {rest : List (Position × β)} {y : γ} {e : ε} :
      f place.1 place.2 = .ok y → FirstError f rest e → FirstError f (place :: rest) e

namespace Images

variable {f : Position → β → Except ε γ} {places : List (Position × β)}
  {images images' : List (Position × γ)}

theorem map_fst (result : Images f places images) :
    images.map Prod.fst = places.map Prod.fst := by
  induction result with
  | nil => rfl
  | cons head _ ih => rw [List.map_cons, List.map_cons, head.1, ih]

theorem ne_nil (result : Images f places images) (nonempty : places ≠ []) : images ≠ [] := by
  rintro rfl
  cases result
  exact nonempty rfl

/-- Every image is that of an entry at its place. -/
theorem exists_source (result : Images f places images) {image : Position × γ}
    (member : image ∈ images) :
    ∃ source ∈ places, image.1 = source.1 ∧ f source.1 source.2 = .ok image.2 := by
  induction result with
  | nil => cases member
  | @cons source _ _ _ head _ ih =>
      rcases List.mem_cons.mp member with rfl | later
      · exact ⟨source, by simp, head⟩
      · obtain ⟨source', sourceMember, image_of⟩ := ih later
        exact ⟨source', by simp [sourceMember], image_of⟩

/-- There is only one list of images. -/
theorem unique (result : Images f places images) (other : Images f places images') :
    images = images' := by
  induction result generalizing images' with
  | nil => cases other; rfl
  | cons head _ ih =>
      cases other with
      | cons head' tail' =>
          have value := Except.ok.inj (head.2.symm.trans head'.2)
          rw [Prod.ext (head.1.trans head'.1.symm) value, ih tail']

/-- Images under one function and then under another are images under both in turn. -/
theorem trans {k : Position → γ → Except ε δ} {final : List (Position × δ)}
    (first : Images f places images) (second : Images k images final) :
    Images (fun p x => f p x >>= k p) places final := by
  induction first generalizing final with
  | nil => cases second; exact .nil
  | cons head _ ih =>
      cases second with
      | cons head' tail' =>
          refine .cons ⟨head'.1.trans head.1, ?_⟩ (ih tail')
          dsimp only
          rw [head.2, ← head.1]
          exact head'.2

/-- Images under functions of which the second gives at these places all that the first gives. -/
theorem mono_of_mem {ε' : Type} {f' : Position → β → Except ε' γ}
    (gives : ∀ place ∈ places, ∀ y, f place.1 place.2 = .ok y → f' place.1 place.2 = .ok y)
    (result : Images f places images) : Images f' places images := by
  induction result with
  | nil => exact .nil
  | cons head _ ih =>
      obtain ⟨here, later⟩ := List.forall_mem_cons.mp gives
      exact .cons ⟨head.1, here _ head.2⟩ (ih later)

/-- Images under functions of which the second gives all that the first gives. -/
theorem mono {ε' : Type} {f' : Position → β → Except ε' γ}
    (gives : ∀ p x y, f p x = .ok y → f' p x = .ok y) (result : Images f places images) :
    Images f' places images :=
  result.mono_of_mem fun place _ => gives place.1 place.2

/-- Images under two functions at the same places, where what one of them gives is related to what
the other gives. -/
theorem forall₂ {f' : Position → β → Except ε γ} {related : Position → γ → γ → Prop}
    (result : Images f places images) (result' : Images f' places images')
    (relates : ∀ place ∈ places, ∀ y y', f place.1 place.2 = .ok y →
      f' place.1 place.2 = .ok y' → related place.1 y y') :
    List.Forall₂ (fun image image' => image.1 = image'.1 ∧ related image.1 image.2 image'.2)
      images images' := by
  induction result generalizing images' with
  | nil =>
      cases result'
      exact .nil
  | cons head _ ih =>
      cases result' with
      | cons head' tail' =>
          obtain ⟨here, later⟩ := List.forall_mem_cons.mp relates
          refine .cons ⟨head.1.trans head'.1.symm, ?_⟩ (ih tail' later)
          rw [head.1]
          exact here _ _ head.2 head'.2

end Images

namespace FirstError

variable {f : Position → β → Except ε γ} {places : List (Position × β)}
  {images : List (Position × γ)} {e e' : ε}

/-- There is no first error where all places have images. -/
theorem not_images (first : FirstError f places e) : ¬ Images f places images := by
  intro result
  induction first generalizing images with
  | here fails =>
      cases result with
      | cons head _ => cases fails.symm.trans head.2
  | later _ _ ih =>
      cases result with
      | cons _ tail => exact ih tail

/-- There is only one first error. -/
theorem unique (first : FirstError f places e) (other : FirstError f places e') : e = e' := by
  induction first with
  | here fails =>
      cases other with
      | here fails' => exact Except.error.inj (fails.symm.trans fails')
      | later given _ => cases fails.symm.trans given
  | later given _ ih =>
      cases other with
      | here fails => cases given.symm.trans fails
      | later _ first' => exact ih first'

/-- The place of the first error is one of those walked over. -/
theorem exists_place (first : FirstError f places e) :
    ∃ place ∈ places, f place.1 place.2 = .error e := by
  induction first with
  | here fails => exact ⟨_, List.mem_cons_self, fails⟩
  | later _ _ ih =>
      obtain ⟨place, member, fails⟩ := ih
      exact ⟨place, List.mem_cons_of_mem _ member, fails⟩

end FirstError

/-! ## Rows filled again -/

namespace Row

variable {elevation : Int} {elevationIndex azimuthCount : Nat}

theorem length_placed (azimuthIndex : Nat) (entries : List (Int × β)) :
    (placed elevation elevationIndex azimuthCount azimuthIndex entries).length =
      entries.length := by
  rw [← List.length_map Prod.snd, map_snd_placed, List.length_map]

theorem placed_zip {azimuthIndex : Nat} {entries : List (Int × β)} {values : List γ}
    (length : values.length = entries.length) :
    placed elevation elevationIndex azimuthCount azimuthIndex
        ((entries.map Prod.fst).zip values) =
      ((placed elevation elevationIndex azimuthCount azimuthIndex entries).map Prod.fst).zip
        values := by
  induction entries generalizing azimuthIndex values with
  | nil => rfl
  | cons entry rest ih =>
      cases values with
      | nil => cases length
      | cons y ys =>
          obtain ⟨azimuth, x⟩ := entry
          rw [List.map_cons, List.zip_cons_cons, placed, placed, List.map_cons,
            List.zip_cons_cons, ih (Nat.succ.inj length)]

theorem map_fst_refill {row : Row β} {values : List γ}
    (length : values.length = row.entries.length) :
    (row.refill values).entries.map Prod.fst = row.entries.map Prod.fst := by
  exact List.map_fst_zip (Nat.le_of_eq (by rw [List.length_map, length]))

end Row

namespace Grid

/-- The first row takes as many values as it has places, and leaves as many as the others have. -/
theorem length_take_drop {elevationIndex : Nat} {row : Row β} {rest : List (Row β)}
    {values : List γ} (length : values.length = (placed elevationIndex (row :: rest)).length) :
    (values.take row.entries.length).length = row.entries.length ∧
      (values.drop row.entries.length).length = (placed (elevationIndex + 1) rest).length := by
  rw [placed, List.length_append, Row.length_placed] at length
  rw [List.length_take, List.length_drop]
  omega

/-- Rows filled again have their azimuths if there are enough values. -/
theorem outline_refillRows {elevationIndex : Nat} {rows : List (Row β)} {values : List γ}
    (length : values.length = (placed elevationIndex rows).length) :
    ((refillRows rows values).map fun row => (row.elevation, row.entries.map Prod.fst)) =
      rows.map fun row => (row.elevation, row.entries.map Prod.fst) := by
  induction rows generalizing elevationIndex values with
  | nil => rfl
  | cons row rest ih =>
      obtain ⟨taken, left⟩ := length_take_drop length
      rw [refillRows, List.map_cons, List.map_cons, ih left, Row.map_fst_refill taken]
      rfl

/-- Rows filled again hold the values in the order of the places. -/
theorem placed_refillRows {elevationIndex : Nat} {rows : List (Row β)} {values : List γ}
    (length : values.length = (placed elevationIndex rows).length) :
    placed elevationIndex (refillRows rows values) =
      ((placed elevationIndex rows).map Prod.fst).zip values := by
  induction rows generalizing elevationIndex values with
  | nil => rfl
  | cons row rest ih =>
      obtain ⟨taken, left⟩ := length_take_drop length
      have count : (row.refill (values.take row.entries.length)).entries.length =
          row.entries.length := by
        simpa using congrArg List.length (Row.map_fst_refill taken)
      have together : values =
          values.take row.entries.length ++ values.drop row.entries.length :=
        (List.take_append_drop _ _).symm
      rw [refillRows, placed, placed, count, ih left]
      conv_rhs => rw [together]
      rw [List.map_append, List.zip_append, ← Row.placed_zip taken]
      · rfl
      · rw [List.length_map, Row.length_placed, taken]

end Grid

/-! ## Traversals -/

namespace Grid

variable {f : Position → β → Except ε γ}

/-- Places in order either all give a value, or one of them the first error. -/
theorem collect_spec (f : Position → β → Except ε γ) (places : List (Position × β)) :
    (∃ values, collect f places = .ok values ∧ values.length = places.length ∧
        Images f places ((places.map Prod.fst).zip values)) ∨
      ∃ e, collect f places = .error e ∧ FirstError f places e := by
  induction places with
  | nil => exact .inl ⟨[], rfl, rfl, .nil⟩
  | cons place rest ih =>
      obtain ⟨position, x⟩ := place
      rw [collect]
      cases head : f position x with
      | error e => exact .inr ⟨e, rfl, .here head⟩
      | ok y =>
          rcases ih with ⟨values, tail, length, result⟩ | ⟨e, tail, first⟩
          · refine .inl ⟨y :: values, by rw [tail], ?_, .cons ⟨rfl, head⟩ result⟩
            rw [List.length_cons, List.length_cons, length]
          · exact .inr ⟨e, by rw [tail], .later head first⟩

/-- A traversal either reaches the images of all entries, or the first error. -/
theorem traverse_spec (g : Grid β) (f : Position → β → Except ε γ) :
    (∃ h, g.traverse f = .ok h ∧ h.outline = g.outline ∧ Images f g.positioned h.positioned) ∨
      ∃ e, g.traverse f = .error e ∧ FirstError f g.positioned e := by
  rw [traverse, positioned_eq_placed]
  rcases collect_spec f (placed 0 g.rows) with ⟨values, walk, length, result⟩ | ⟨e, walk, first⟩
  · refine .inl ⟨g.refill values, by rw [walk]; rfl, outline_refillRows length, ?_⟩
    rw [positioned_eq_placed, refill, placed_refillRows length]
    exact result
  · exact .inr ⟨e, by rw [walk]; rfl, first⟩

/-- A traversal succeeds with the grid of the same outline that holds the images. -/
theorem traverse_eq_ok_iff {g : Grid β} {h : Grid γ} :
    g.traverse f = .ok h ↔ h.outline = g.outline ∧ Images f g.positioned h.positioned := by
  rcases traverse_spec g f with ⟨h', walk, outline, result⟩ | ⟨e, walk, first⟩
  · rw [walk]
    constructor
    · intro same
      cases same
      exact ⟨outline, result⟩
    · rintro ⟨outline', result'⟩
      rw [eq_of_outline_of_positioned (outline.trans outline'.symm) (result.unique result')]
  · simp only [walk, reduceCtorEq, false_iff, not_and]
    exact fun _ => first.not_images

/-- A traversal fails with the error at the first place that has one. -/
theorem traverse_eq_error_iff {g : Grid β} {e : ε} :
    g.traverse f = .error e ↔ FirstError f g.positioned e := by
  rcases traverse_spec g f with ⟨h, walk, outline, result⟩ | ⟨e', walk, first⟩
  · simp only [walk, reduceCtorEq, false_iff]
    exact fun first => first.not_images result
  · rw [walk, Except.error.injEq]
    constructor
    · rintro rfl
      exact first
    · exact first.unique

/-- A grid with a function at each entry. -/
def map (k : β → γ) (g : Grid β) : Grid γ :=
  ⟨g.rows.map fun row => ⟨row.elevation, row.entries.map fun entry => (entry.1, k entry.2)⟩⟩

theorem outline_map (k : β → γ) (g : Grid β) : (g.map k).outline = g.outline := by
  unfold outline map
  rw [List.map_map]
  refine List.map_congr_left fun row _ => ?_
  dsimp only [Function.comp_apply]
  rw [List.map_map]
  rfl

theorem positioned_map (k : β → γ) (g : Grid β) :
    (g.map k).positioned = g.positioned.map fun entry => (entry.1, k entry.2) := by
  rw [positioned_eq_placed, positioned_eq_placed, map]
  dsimp only
  generalize 0 = elevationIndex
  induction g.rows generalizing elevationIndex with
  | nil => rfl
  | cons row rest ih =>
      rw [List.map_cons, placed, placed, List.map_append, ih, ← Row.placed_map, List.length_map]

theorem values_map (k : β → γ) (g : Grid β) : (g.map k).values = g.values.map k := by
  rw [← map_snd_positioned, ← map_snd_positioned, positioned_map, List.map_map, List.map_map]
  rfl

theorem entryLength_map {k : List β → List γ} {g : Grid (List β)}
    (kept : ∀ m ∈ g.values, (k m).length = m.length) :
    (g.map k).entryLength = g.entryLength := by
  rw [entryLength, values_map, entryLength]
  revert kept
  cases g.values with
  | nil => exact fun _ => rfl
  | cons first rest => exact fun kept => kept first List.mem_cons_self

theorem map_map (k : β → γ) (l : γ → δ) (g : Grid β) :
    (g.map k).map l = g.map (l ∘ k) := by
  simp only [map, List.map_map, Function.comp_def]

theorem map_congr {k l : β → γ} {g : Grid β} (same : ∀ x ∈ g.values, k x = l x) :
    g.map k = g.map l := by
  refine congrArg Grid.mk (List.map_congr_left fun row member => ?_)
  refine congrArg (Row.mk row.elevation) (List.map_congr_left fun entry place => ?_)
  have value : entry.2 ∈ g.values :=
    List.mem_flatMap.mpr ⟨row, member, List.mem_map.mpr ⟨entry, place, rfl⟩⟩
  rw [same entry.2 value]

theorem collect_map (f : Position → γ → Except ε δ) (k : β → γ) (places : List (Position × β)) :
    collect f (places.map fun entry => (entry.1, k entry.2)) =
      collect (fun p x => f p (k x)) places := by
  induction places with
  | nil => rfl
  | cons place rest ih => rw [List.map_cons, collect, collect, ih]

theorem refill_map (k : β → γ) (g : Grid β) (values : List δ) :
    (g.map k).refill values = g.refill values := by
  have rows : ∀ (rows : List (Row β)) (values : List δ),
      refillRows (rows.map fun row =>
          (⟨row.elevation, row.entries.map fun entry => (entry.1, k entry.2)⟩ : Row γ)) values =
        refillRows rows values := by
    intro rows
    induction rows with
    | nil => exact fun _ => rfl
    | cons row rest ih =>
        intro values
        rw [List.map_cons, refillRows, refillRows, ih, List.length_map, Row.refill, Row.refill,
          List.map_map]
        rfl
  exact congrArg Grid.mk (rows g.rows values)

/-- A traversal of what a function makes of the entries. -/
theorem traverse_map (k : β → γ) (g : Grid β) (f : Position → γ → Except ε δ) :
    (g.map k).traverse f = g.traverse fun p x => f p (k x) := by
  have refilled : (g.map k).refill (γ := δ) = g.refill := funext (refill_map k g)
  rw [traverse, traverse, positioned_map, collect_map, refilled]

end Grid

end Binaural
