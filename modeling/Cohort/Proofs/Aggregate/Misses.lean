import Cohort.Proofs.Aggregate.Values
import Cohort.Proofs.Job.Scan
/-
  Which rows the aggregates of one expression SKIP.

  1. **Values that fit.**  A cell may hold a value of any type, whatever its column is declared to
     have, and the expression gives that value all the same.  A value fits a declared type if it is
     of that type, or an integer where floats are expected (`DataType.Admits`).

  2. **Row by row.**  A count asks whether there is a value, a sum or an extremum whether it fits
     the declared type, and an average whether it is a number, since it works in floats over every
     input.  So they skip the same rows exactly where values fit (`skip_alike_iff`).

  3. **Over rows.**  Aggregates that skip the same rows count the same number of inputs.  Where this
     number is zero a count says so, and all others are NULL.
-/

namespace Cohort

/-! ## Values that fit -/

/-- Whether a value may stand where a type is declared: integers may where floats are expected. -/
def DataType.Admits (type : DataType) (v : Scalar) : Prop :=
  v.datatype = type ∨ type = .float64 ∧ v.datatype = .int64

instance (type : DataType) (v : Scalar) : Decidable (type.Admits v) :=
  inferInstanceAs (Decidable (_ ∨ _))

/-- The words of a domain stand for the values that its type admits. -/
theorem Numeric.isSome_encode_iff {n : Numeric} {v : Scalar} :
    (n.encode v).isSome = true ↔ n.datatype.Admits v := by
  unfold DataType.Admits
  cases n <;> cases v <;> simp [encode, Numeric.datatype, Scalar.datatype]

/-- Floats are expected of an average, and what fits any numeric type fits there. -/
theorem DataType.Admits.float {type : DataType} (htype : type = .int64 ∨ type = .float64)
    {v : Scalar} (h : type.Admits v) : DataType.float64.Admits v := by
  rcases htype with rfl | rfl
  · exact .inr ⟨rfl, h.resolve_right fun hfloat => nomatch hfloat.1⟩
  · exact h

/-- The value of an expression at a row fits the type that the expression is declared to have, if
    there is one. -/
def Expr.FitsAt (e : Expr) (t : Table) (row : Nat) : Prop :=
  ∀ v, e.eval t row = some v → e.datatype.Admits v

/-- A constant has the type it says, and what always misses has no value. -/
theorem Expr.fitsAt_of_not_column {e : Expr} (h : ∀ i type name, e ≠ .column i type name)
    (t : Table) (row : Nat) : e.FitsAt t row := by
  intro v hv
  cases e with
  | column i type name => exact absurd rfl (h i type name)
  | literal value =>
    have hsame : v = value := by
      cases value with
      | null => cases hv
      | _ => exact (Option.some.inj hv).symm
    exact .inl (congrArg Scalar.datatype hsame)
  | missing type => cases hv

namespace Aggregate

/-! ## Row by row -/

/-- The aggregate of a kind over an expression that is declared to have values of a domain. -/
def ofKind (e : Expr) (n : Numeric) (kind : AggregateKind) : Aggregate :=
  match kind with
  | .count => ⟨⟨.count, .int64⟩, some e⟩
  | .avg => ⟨⟨.avg, .float64⟩, some e⟩
  | .sum | .min | .max => ⟨⟨kind, n⟩, some e⟩

theorem function_ofKind_kind (e : Expr) (n : Numeric) (kind : AggregateKind) :
    (ofKind e n kind).function.kind = kind := by
  cases kind <;> rfl

/-- Over a numeric expression there are aggregates of all kinds. -/
theorem create_eq_ofKind {e : Expr} {n : Numeric} (he : e.datatype = n.datatype)
    (kind : AggregateKind) : create kind (some e) = .ok (ofKind e n kind) := by
  have hdomain : Numeric.ofDataType? n.datatype = some n := by cases n <;> rfl
  rw [create, he]
  cases kind <;> simp only [domain, hdomain, Option.map_some] <;> rfl

/-- What an aggregate of a kind asks of the values of an expression of a numeric type. -/
def Takes (type : DataType) (kind : AggregateKind) (v : Scalar) : Prop :=
  match kind with
  | .count => True
  | .avg => DataType.float64.Admits v
  | .sum | .min | .max => type.Admits v

/-- **A row contributes** to an aggregate if there is a value which the aggregate takes. -/
theorem isSome_input?_ofKind {e : Expr} {n : Numeric} (he : e.datatype = n.datatype) (t : Table)
    (kind : AggregateKind) (row : Nat) :
    ((ofKind e n kind).input? t row).isSome = true ↔
      ∃ v, e.eval t row = some v ∧ Takes e.datatype kind v := by
  have hinput : (ofKind e n kind).input? t row = (e.eval t row).bind fun v =>
      match kind with
      | .count => some 0
      | .avg => Numeric.float64.encode v
      | .sum | .min | .max => n.encode v := by
    cases kind <;> rfl
  rw [hinput, Option.isSome_bind, Option.any_eq_true, he]
  refine exists_congr fun v => and_congr_right fun _ => ?_
  cases kind with
  | count => exact iff_of_true rfl trivial
  | avg => exact Numeric.isSome_encode_iff
  | sum | min | max => exact Numeric.isSome_encode_iff

/-- **The aggregates of an expression skip the same rows where values fit**, and only there. -/
theorem skip_alike_iff {e : Expr} {n : Numeric} (he : e.datatype = n.datatype) (t : Table)
    (row : Nat) :
    (∀ kind kind',
      ((ofKind e n kind).input? t row).isSome = ((ofKind e n kind').input? t row).isSome) ↔
      e.FitsAt t row := by
  have hnumeric : e.datatype = .int64 ∨ e.datatype = .float64 := by
    rw [he]
    cases n <;> simp [Numeric.datatype]
  constructor
  · intro halike v hv
    -- the count takes the value, and so does the sum
    have hcount := (isSome_input?_ofKind he t .count row).mpr ⟨v, hv, trivial⟩
    rw [halike .count .sum] at hcount
    obtain ⟨v', hv', htakes⟩ := (isSome_input?_ofKind he t .sum row).mp hcount
    rw [hv] at hv'
    exact Option.some.inj hv' ▸ htakes
  · intro hfits
    -- every kind takes what fits
    have hall : ∀ kind, ((ofKind e n kind).input? t row).isSome = (e.eval t row).isSome := by
      intro kind
      rw [Bool.eq_iff_iff, isSome_input?_ofKind he, Option.isSome_iff_exists]
      refine exists_congr fun v => and_iff_left_of_imp fun hv => ?_
      cases kind with
      | count => trivial
      | avg => exact (hfits v hv).float hnumeric
      | sum | min | max => exact hfits v hv
    intro kind kind'
    rw [hall, hall]

/-! ## Over rows -/

/-- Aggregates that skip the same rows take as many words from them. -/
theorem length_inputs_eq {a b : Aggregate} {t : Table} {rows : List Nat}
    (h : ∀ row ∈ rows, (a.input? t row).isSome = (b.input? t row).isSome) :
    (a.inputs t rows).length = (b.inputs t rows).length := by
  rw [inputs, inputs, List.length_filterMap_eq_countP, List.length_filterMap_eq_countP]
  refine List.countP_congr fun row hrow => ?_
  rw [h row hrow]

end Aggregate

/-- A count of inputs, if their number is a word, is zero if there are none. -/
theorem AggregateFunction.finalize_foldInputs_eq_zero_iff [FloatAddition] {f : AggregateFunction}
    (hk : f.kind = .count) {xs : List UInt64} (hlen : xs.length < UInt64.size) :
    f.finalize (f.foldInputs xs) = .int 0 ↔ xs = [] := by
  rw [finalize_of_count hk, Scalar.int.injEq, ← count_foldInputs_eq_zero_iff (f := f) hlen]
  refine ⟨fun hzero => ?_, fun hzero => by rw [hzero]; rfl⟩
  have hword := congrArg Int64.toUInt64 hzero
  rwa [UInt64.toUInt64_toInt64] at hword

/-- **The aggregates of one expression skip the same rows where its values fit their type.**

    Let an expression be declared to have integers or floats.  Then there are aggregates of all
    kinds over it.  A row contributes to the count if the expression does not miss there, to the
    sum, the minimum and the maximum if its value fits the declared type, and to the average if it
    is a number.  So the five skip the same rows exactly where the value, if there is one, fits;
    this is everywhere unless the expression is a column.  Over any rows where it fits their counts
    are the same, and if fewer than 2^64 rows are gone through, all but the count are NULL exactly
    if the count is zero. -/
theorem aggregates_skip_alike [FloatAddition] {e : Expr}
    (he : e.datatype = .int64 ∨ e.datatype = .float64) (t : Table) :
    ∃ agg : AggregateKind → Aggregate,
      (∀ kind, Aggregate.create kind (some e) = .ok (agg kind)) ∧
      (∀ kind row, ((agg kind).input? t row).isSome = true ↔
        ∃ v, e.eval t row = some v ∧ Aggregate.Takes e.datatype kind v) ∧
      (∀ row,
        (∀ kind kind', ((agg kind).input? t row).isSome = ((agg kind').input? t row).isSome) ↔
          e.FitsAt t row) ∧
      ((∀ i type name, e ≠ .column i type name) → ∀ row, e.FitsAt t row) ∧
      ∀ rows : List Nat, (∀ row ∈ rows, e.FitsAt t row) →
        (∀ kind kind', ((agg kind).tallyOf t rows).count = ((agg kind').tallyOf t rows).count) ∧
        (rows.length < UInt64.size → ∀ kind, kind ≠ .count →
          ((agg kind).function.finalize ((agg kind).tallyOf t rows) = .null ↔
            (agg .count).function.finalize ((agg .count).tallyOf t rows) = .int 0)) := by
  obtain ⟨n, hn⟩ : ∃ n : Numeric, e.datatype = n.datatype := by
    rcases he with he | he
    · exact ⟨.int64, he⟩
    · exact ⟨.float64, he⟩
  refine ⟨Aggregate.ofKind e n, Aggregate.create_eq_ofKind hn, Aggregate.isSome_input?_ofKind hn t,
    Aggregate.skip_alike_iff hn t, fun hnot row => Expr.fitsAt_of_not_column hnot t row,
    fun rows hfits => ?_⟩
  have hlength : ∀ kind kind', ((Aggregate.ofKind e n kind).inputs t rows).length =
      ((Aggregate.ofKind e n kind').inputs t rows).length := fun kind kind' =>
    Aggregate.length_inputs_eq fun row hrow =>
      (Aggregate.skip_alike_iff hn t row).mpr (hfits row hrow) kind kind'
  refine ⟨fun kind kind' => ?_, fun hrows kind hkind => ?_⟩
  · rw [Aggregate.tallyOf, Aggregate.tallyOf, AggregateFunction.count_foldInputs,
      AggregateFunction.count_foldInputs, hlength kind kind']
  · have hfew : ∀ kind, ((Aggregate.ofKind e n kind).inputs t rows).length < UInt64.size :=
      fun kind => Nat.lt_of_le_of_lt (Aggregate.length_inputs_le _ _ rows) hrows
    have hnotCount : (Aggregate.ofKind e n kind).function.kind ≠ .count := by
      rwa [Aggregate.function_ofKind_kind]
    have hnull :=
      ((Aggregate.ofKind e n kind).function.describes_foldInputs fun _ => hfew kind).null hnotCount
    rw [Aggregate.tallyOf, Aggregate.tallyOf, hnull,
      AggregateFunction.finalize_foldInputs_eq_zero_iff rfl (hfew .count),
      ← List.length_eq_zero_iff, ← List.length_eq_zero_iff, hlength kind .count]

/-- A column declared to have floats, with an integer, a float, nothing and a text that does not fit
    but is not gone through. -/
theorem aggregates_skip_alike_sample :
    let e : Expr := .column 0 .float64 none
    let t : Table :=
      ⟨1, #[#[.int 2], #[.float ⟨0x3ff8000000000000⟩], #[.null], #[.text "x"]], by decide⟩
    e.datatype = .float64 ∧ (∀ row ∈ [0, 1, 2], e.FitsAt t row) ∧ ¬e.FitsAt t 3 ∧
      ∃ agg : AggregateKind → Aggregate,
        (∀ kind, Aggregate.create kind (some e) = .ok (agg kind)) ∧
        ∀ kind kind', ((agg kind).tallyOf t [0, 1, 2]).count =
          ((agg kind').tallyOf t [0, 1, 2]).count := by
  intro e t
  have he : e.datatype = .float64 := rfl
  obtain ⟨agg, hcreate, -, halike, -, hrows⟩ := aggregates_skip_alike (.inr he) t
  have hfits : ∀ row ∈ [0, 1, 2], e.FitsAt t row := by
    intro row hrow v hv
    simp only [List.mem_cons, List.not_mem_nil, or_false] at hrow
    rcases hrow with rfl | rfl | rfl <;> cases hv <;> decide
  have hmisfit : ¬e.FitsAt t 3 := fun hfits => absurd (hfits _ rfl) (by decide)
  exact ⟨he, hfits, hmisfit, agg, hcreate, (hrows _ hfits).1⟩

/-- A float in a column that is declared to have integers is counted, but not summed. -/
theorem misfit_counted_and_not_summed :
    ¬∀ (e : Expr) (t : Table) (row : Nat), e.datatype = .int64 ∨ e.datatype = .float64 →
      ∀ kind kind' a b, Aggregate.create kind (some e) = .ok a →
        Aggregate.create kind' (some e) = .ok b →
        (a.input? t row).isSome = (b.input? t row).isSome := by
  intro hall
  have halike := hall (.column 0 .int64 none) ⟨1, #[#[.float ⟨0x3ff8000000000000⟩]], by decide⟩ 0
    (.inl rfl) .count .sum _ _ rfl rfl
  exact absurd halike (by decide)

end Cohort
