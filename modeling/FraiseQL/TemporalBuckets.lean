import FraiseQL.AggregateSql

/-! What the expressions of temporal buckets mean (`runtime/aggregation/expressions.rs`), by the documentation of the
four databases. A bucket partitions time as `DATE_TRUNC` does when two timestamps have the same value, or values in the
same order, exactly when their truncations do. `%q` is no specifier of MySQL, the quarter of SQLite's format is left
out, a week across New Year has two numbers, and `DATEPART` forgets the units above its own. -/

namespace FraiseQL.TemporalBuckets

open Aggregate.SqlGenerator SqlLex List

/-! ### Keys of a fixed width -/

/-- The lexicographic order of keys; texts are keys by the codes of their characters. -/
abbrev Before (x y : List Nat) : Prop := List.Lex (· < ·) x y

theorem before_cons {m n : Nat} {x y : List Nat} : Before (m :: x) (n :: y) ↔ m < n ∨ m = n ∧ Before x y :=
  cons_lex_cons_iff

theorem before_asymm {x y : List Nat} (h : Before x y) : ¬Before y x := by
  induction x generalizing y with
  | nil => exact nofun
  | cons m x ih =>
    cases y with
    | nil => cases h
    | cons n y =>
      rw [before_cons] at h ⊢
      rintro (hlt | ⟨rfl, hyx⟩)
      · omega
      · exact ih (h.resolve_left (Nat.lt_irrefl _)).2 hyx

theorem before_irrefl (x : List Nat) : ¬Before x x := fun h => before_asymm h h

theorem before_append {x x' y y' : List Nat} (h : x.length = x'.length) :
    Before (x ++ y) (x' ++ y') ↔ Before x x' ∨ x = x' ∧ Before y y' := by
  induction x generalizing x' with
  | nil =>
    obtain rfl := length_eq_zero_iff.mp h.symm
    simp
  | cons m x ih =>
    cases x' with
    | nil => cases h
    | cons n x' =>
      rw [cons_append, cons_append, before_cons, before_cons, ih (Nat.succ.inj h), cons.injEq]
      tauto

theorem append_eq {x x' y y' : List Nat} (h : x.length = x'.length) : x ++ y = x' ++ y' ↔ x = x' ∧ y = y' :=
  ⟨fun heq => append_inj heq h, fun ⟨hx, hy⟩ => by rw [hx, hy]⟩

variable {τ : Type} {a b c d : τ → List Nat}

/-- Two keys that tell the same things apart and order them alike, each of one length. -/
structure Aligned (a b : τ → List Nat) : Prop where
  left : ∀ t t', (a t).length = (a t').length
  right : ∀ t t', (b t).length = (b t').length
  eq_iff : ∀ t t', a t = a t' ↔ b t = b t'
  before_iff : ∀ t t', Before (a t) (a t') ↔ Before (b t) (b t')

theorem Aligned.append (h : Aligned a b) (h' : Aligned c d) : Aligned (fun t => a t ++ c t) fun t => b t ++ d t := by
  refine ⟨fun t t' => ?_, fun t t' => ?_, fun t t' => ?_, fun t t' => ?_⟩
  · rw [length_append, length_append, h.left t t', h'.left t t']
  · rw [length_append, length_append, h.right t t', h'.right t t']
  · rw [append_eq (h.left t t'), append_eq (h.right t t'), h.eq_iff, h'.eq_iff]
  · rw [before_append (h.left t t'), before_append (h.right t t'), h.before_iff, h.eq_iff, h'.before_iff]

theorem Aligned.const (l l' : List Nat) : Aligned (fun _ : τ => l) fun _ => l' :=
  ⟨fun _ _ => rfl, fun _ _ => rfl, fun _ _ => iff_of_true rfl rfl,
    fun _ _ => iff_of_false (before_irrefl l) (before_irrefl l')⟩

theorem Aligned.refl (h : ∀ t t', (a t).length = (a t').length) : Aligned a a :=
  ⟨h, h, fun _ _ => Iff.rfl, fun _ _ => Iff.rfl⟩

/-- A number with leading zeros. -/
def pad : Nat → Nat → List Nat
  | 0, _ => []
  | width + 1, n => pad width (n / 10) ++ [48 + n % 10]

theorem length_pad (width n : Nat) : (pad width n).length = width := by
  induction width generalizing n with
  | zero => rfl
  | succ width ih => rw [pad, length_append, ih, length_singleton]

theorem pad_before {width m n : Nat} (hn : n < 10 ^ width) (h : m < n) : Before (pad width m) (pad width n) := by
  induction width generalizing m n with
  | zero => omega
  | succ width ih =>
    rw [pad, pad, before_append (by rw [length_pad, length_pad])]
    rcases Nat.lt_or_ge (m / 10) (n / 10) with hlt | hge
    · exact .inl (ih (by omega) hlt)
    · have hsame : m / 10 = n / 10 := by omega
      refine .inr ⟨by rw [hsame], .rel ?_⟩
      omega

theorem Aligned.pad {width : Nat} {f : τ → Nat} (h : ∀ t, f t < 10 ^ width) :
    Aligned (fun t => pad width (f t)) fun t => [f t] := by
  have hbefore : ∀ t t', Before (TemporalBuckets.pad width (f t)) (TemporalBuckets.pad width (f t')) ↔ f t < f t' := by
    intro t t'
    refine ⟨fun hlt => ?_, pad_before (h t')⟩
    rcases Nat.lt_trichotomy (f t) (f t') with hf | hf | hf
    · exact hf
    · exact absurd (hf ▸ hlt) (before_irrefl _)
    · exact absurd (pad_before (h t) hf) (before_asymm hlt)
  refine ⟨fun t t' => by rw [length_pad, length_pad], fun _ _ => rfl, fun t t' => ⟨fun heq => ?_, fun heq => ?_⟩,
    fun t t' => ?_⟩
  · rcases Nat.lt_trichotomy (f t) (f t') with hf | hf | hf
    · exact absurd (heq ▸ (hbefore t t').mpr hf) (before_irrefl _)
    · rw [hf]
    · exact absurd (heq ▸ (hbefore t' t).mpr hf) (before_irrefl _)
  · rw [(cons.inj heq).1]
  · rw [hbefore, before_cons]
    simp

/-! ### Timestamps -/

def isLeap (year : Nat) : Bool := year % 4 = 0 ∧ (year % 100 ≠ 0 ∨ year % 400 = 0)

def monthLength (year month : Nat) : Nat :=
  if month = 2 then if isLeap year then 29 else 28 else if month ∈ [4, 6, 9, 11] then 30 else 31

structure Timestamp where
  year : Nat
  month : Nat
  day : Nat
  hour : Nat
  minute : Nat
  second : Nat
  micros : Nat
  year_lt : year < 10000
  month_range : 1 ≤ month ∧ month ≤ 12
  day_range : 1 ≤ day ∧ day ≤ monthLength year month
  clock : hour < 24 ∧ minute < 60 ∧ second < 60 ∧ micros < 1000000

namespace Timestamp

variable (t : Timestamp)

/-- The days of the year before this one. -/
def yearDay : Nat := ((List.range (t.month - 1)).map fun m => monthLength t.year (m + 1)).sum + (t.day - 1)

/-- The days from the start of year 0, a Saturday, to the start of a year. -/
def daysBefore (year : Nat) : Nat := 365 * year + (year + 3) / 4 - (year + 99) / 100 + (year + 399) / 400

/-- The day of the week on which a year starts; Monday is 0. -/
def firstWeekday : Nat := (daysBefore t.year + 5) % 7

/-- The quarter of the year, from 0. -/
def quarter : Nat := (t.month - 1) / 3

/-- `DATE_TRUNC`; the Monday of a week by its number. -/
def dateTrunc : TemporalBucket → List Nat
  | .second => [t.year, t.month, t.day, t.hour, t.minute, t.second]
  | .minute => [t.year, t.month, t.day, t.hour, t.minute, 0]
  | .hour => [t.year, t.month, t.day, t.hour, 0, 0]
  | .day => [t.year, t.month, t.day, 0, 0, 0]
  | .week => [(daysBefore t.year + t.yearDay + 5) / 7]
  | .month => [t.year, t.month, 1, 0, 0, 0]
  | .quarter => [t.year, t.quarter * 3 + 1, 1, 0, 0, 0]
  | .year => [t.year, 1, 1, 0, 0, 0]

/-- A specifier of `DATE_FORMAT`; any other character stands for itself. The week of `%u` starts on Monday, and the
first one has four days or more in the year. -/
def mysqlSpecifier : Char → List Nat
  | 'Y' => pad 4 t.year
  | 'm' => pad 2 t.month
  | 'd' => pad 2 t.day
  | 'H' => pad 2 t.hour
  | 'i' => pad 2 t.minute
  | 's' => pad 2 t.second
  | 'u' => pad 2 ((t.yearDay + t.firstWeekday) / 7 + if t.firstWeekday ≤ 3 then 1 else 0)
  | c => [c.toNat]

/-- A specifier of `strftime`, as far as the formats have them. The first week of `%W` starts on the first Monday. -/
def sqliteSpecifier : Char → List Nat
  | 'Y' => pad 4 t.year
  | 'm' => pad 2 t.month
  | 'd' => pad 2 t.day
  | 'H' => pad 2 t.hour
  | 'M' => pad 2 t.minute
  | 'S' => pad 2 t.second
  | 'W' => pad 2 ((t.yearDay + 7 - (t.yearDay + t.firstWeekday) % 7) / 7)
  | _ => []

/-- A text with its specifiers filled in. -/
def formatted (specifier : Char → List Nat) : List Char → List Nat
  | '%' :: c :: cs => specifier c ++ formatted specifier cs
  | c :: cs => [c.toNat] ++ formatted specifier cs
  | [] => []

/-- `DATEPART`; weeks start on Sunday (`DATEFIRST 7`), the first one on the first of January. -/
def datePart : TemporalBucket → Nat
  | .second => t.second
  | .minute => t.minute
  | .hour => t.hour
  | .day => t.day
  | .week => (t.yearDay + (t.firstWeekday + 1) % 7) / 7 + 1
  | .month => t.month
  | .quarter => t.quarter + 1
  | .year => t.year

/-- `DATEADD(unit, DATEDIFF(unit, 0, t), 0)` with months or years; 0 is the start of 1900. -/
def addDiff (unit : TemporalBucket) : List Nat :=
  let years : Int := t.year - 1900
  if unit = .month then
    let months := 12 * years + (t.month - 1)
    [(1900 + months / 12).toNat, (months % 12).toNat + 1, 1, 0, 0, 0]
  else [(1900 + years).toNat, 1, 1, 0, 0, 0]

end Timestamp

/-! ### Expressions -/

/-- The expressions over a column that buckets are written as. -/
inductive Expression where
  | dateTrunc (bucket : TemporalBucket)
  | dateFormat (format : List Char)
  | strftime (format : List Char)
  | castDate
  | addDiff (unit : TemporalBucket)
  | datePart (part : TemporalBucket)

namespace Expression

def text (column : String) : Expression → List Char
  | dateTrunc bucket => lit "DATE_TRUNC('" ++ bucket.text.toList ++ lit "', " ++ column.toList ++ lit ")"
  | dateFormat format => lit "DATE_FORMAT(" ++ column.toList ++ lit ", '" ++ format ++ lit "')"
  | strftime format => lit "strftime('" ++ format ++ lit "', " ++ column.toList ++ lit ")"
  | castDate => lit "CAST(" ++ column.toList ++ lit " AS DATE)"
  | addDiff unit => lit "DATEADD(" ++ unit.text.toList ++ lit ", DATEDIFF(" ++ unit.text.toList ++ lit ", 0, " ++
      column.toList ++ lit "), 0)"
  | datePart part => lit "DATEPART(" ++ part.text.toList ++ lit ", " ++ column.toList ++ lit ")"

def value (t : Timestamp) : Expression → List Nat
  | dateTrunc bucket => t.dateTrunc bucket
  | dateFormat format => Timestamp.formatted t.mysqlSpecifier format
  | strftime format => Timestamp.formatted t.sqliteSpecifier format
  | castDate => [t.year, t.month, t.day]
  | addDiff unit => t.addDiff unit
  | datePart part => [t.datePart part]

end Expression

def emitted : DatabaseType → TemporalBucket → Expression
  | .postgresql, bucket => .dateTrunc bucket
  | .mysql, bucket => .dateFormat (mysqlFormat bucket)
  | .sqlite, bucket => .strftime (sqliteFormat bucket)
  | .sqlserver, .day => .castDate
  | .sqlserver, .month => .addDiff .month
  | .sqlserver, .year => .addDiff .year
  | .sqlserver, bucket => .datePart bucket

/-- `temporal_bucket_sql` writes these expressions. -/
theorem temporalBucketSql_eq (db : DatabaseType) (column : String) (bucket : TemporalBucket) :
    temporalBucketSql db column bucket = (emitted db bucket).text column := by
  cases db with
  | sqlserver =>
    cases bucket with
    | month | year => simp [temporalBucketSql, emitted, Expression.text, lit, TemporalBucket.text]
    | _ => rfl
  | _ => rfl

/-- The bucket partitions time and keeps its order as `DATE_TRUNC` does. -/
def Partitions (db : DatabaseType) (bucket : TemporalBucket) : Prop :=
  ∀ t t' : Timestamp,
    ((emitted db bucket).value t = (emitted db bucket).value t' ↔ t.dateTrunc bucket = t'.dateTrunc bucket) ∧
      (Before ((emitted db bucket).value t) ((emitted db bucket).value t') ↔
        Before (t.dateTrunc bucket) (t'.dateTrunc bucket))

/-- PostgreSQL; in formats every bucket but weeks and quarters; in SQL Server days, months and years. -/
def Faithful : DatabaseType → TemporalBucket → Bool
  | .postgresql, _ => true
  | .mysql, bucket | .sqlite, bucket => bucket ∉ [.week, .quarter]
  | .sqlserver, bucket => bucket ∈ [.day, .month, .year]

theorem Aligned.partitions {db : DatabaseType} {bucket : TemporalBucket}
    (h : Aligned (fun t => (emitted db bucket).value t) fun t : Timestamp => t.dateTrunc bucket) :
    Partitions db bucket :=
  fun t t' => ⟨h.eq_iff t t', h.before_iff t t'⟩

section Formats

theorem year_digits : Aligned (fun t : Timestamp => pad 4 t.year) fun t => [t.year] := .pad fun t => t.year_lt

theorem two_digits {f : Timestamp → Nat} (h : ∀ t, f t < 100) : Aligned (fun t => pad 2 (f t)) fun t => [f t] := .pad h

theorem month_digits : Aligned (fun t : Timestamp => pad 2 t.month) fun t => [t.month] :=
  two_digits fun t => by have := t.month_range; omega

theorem day_digits : Aligned (fun t : Timestamp => pad 2 t.day) fun t => [t.day] := two_digits fun t => by
  have hday := t.day_range.2
  unfold monthLength at hday
  split_ifs at hday <;> omega

theorem hour_digits : Aligned (fun t : Timestamp => pad 2 t.hour) fun t => [t.hour] :=
  two_digits fun t => by have := t.clock; omega

theorem minute_digits : Aligned (fun t : Timestamp => pad 2 t.minute) fun t => [t.minute] :=
  two_digits fun t => by have := t.clock; omega

theorem second_digits : Aligned (fun t : Timestamp => pad 2 t.second) fun t => [t.second] :=
  two_digits fun t => by have := t.clock; omega

/-- What follows a text that is the same for all. -/
theorem Aligned.behind (l : List Nat) (h : Aligned a b) : Aligned (fun t => l ++ a t) b := (Aligned.const l []).append h

theorem formats_partition {db : DatabaseType} (hdb : db = .mysql ∨ db = .sqlite) (bucket : TemporalBucket)
    (h : Faithful db bucket = true) : Partitions db bucket := by
  apply Aligned.partitions
  cases bucket with
  | week => rcases hdb with rfl | rfl <;> cases h
  | quarter => rcases hdb with rfl | rfl <;> cases h
  | year => rcases hdb with rfl | rfl <;> exact year_digits.append (.const [] [1, 1, 0, 0, 0])
  | month =>
    rcases hdb with rfl | rfl <;>
      exact year_digits.append (.behind [45] (month_digits.append (.const [] [1, 0, 0, 0])))
  | day =>
    rcases hdb with rfl | rfl <;>
      exact year_digits.append (.behind [45] (month_digits.append (.behind [45]
        (day_digits.append (.const [] [0, 0, 0])))))
  | hour =>
    rcases hdb with rfl | rfl <;>
      exact year_digits.append (.behind [45] (month_digits.append (.behind [45] (day_digits.append (.behind [32]
        (hour_digits.append (.const [58, 48, 48, 58, 48, 48] [0, 0])))))))
  | minute =>
    rcases hdb with rfl | rfl <;>
      exact year_digits.append (.behind [45] (month_digits.append (.behind [45] (day_digits.append (.behind [32]
        (hour_digits.append (.behind [58] (minute_digits.append (.const [58, 48, 48] [0])))))))))
  | second =>
    rcases hdb with rfl | rfl <;>
      exact year_digits.append (.behind [45] (month_digits.append (.behind [45] (day_digits.append (.behind [32]
        (hour_digits.append (.behind [58] (minute_digits.append (.behind [58]
          (second_digits.append (.const [] [])))))))))))

end Formats

theorem sqlserver_partitions (bucket : TemporalBucket) (h : Faithful .sqlserver bucket = true) :
    Partitions .sqlserver bucket := by
  apply Aligned.partitions
  cases bucket with
  | day =>
    have hdate : Aligned (fun t : Timestamp => [t.year, t.month, t.day]) fun t => [t.year, t.month, t.day] :=
      .refl fun _ _ => rfl
    exact hdate.append (.const [] [0, 0, 0])
  | month =>
    have hmonth : ∀ t : Timestamp, t.addDiff .month = t.dateTrunc .month := by
      intro t
      have hrange := t.month_range
      have hyear : (1900 + (12 * ((t.year : Int) - 1900) + (t.month - 1)) / 12).toNat = t.year := by omega
      have hrest : ((12 * ((t.year : Int) - 1900) + (t.month - 1)) % 12).toNat + 1 = t.month := by omega
      rw [Timestamp.addDiff, if_pos rfl]
      dsimp only
      rw [hyear, hrest]
      rfl
    show Aligned (fun t : Timestamp => t.addDiff .month) _
    simp only [hmonth]
    exact .refl fun _ _ => rfl
  | year =>
    have hyear : ∀ t : Timestamp, t.addDiff .year = t.dateTrunc .year := by
      intro t
      have hstart : (1900 + ((t.year : Int) - 1900)).toNat = t.year := by omega
      rw [Timestamp.addDiff, if_neg (by decide), hstart]
      rfl
    show Aligned (fun t : Timestamp => t.addDiff .year) _
    simp only [hyear]
    exact .refl fun _ _ => rfl
  | _ => cases h

/-! ### Where they differ -/

def newYear2024 : Timestamp := ⟨2024, 1, 1, 0, 0, 0, 0, by decide, by decide, by decide, by decide⟩

def april2024 : Timestamp := ⟨2024, 4, 1, 0, 0, 0, 0, by decide, by decide, by decide, by decide⟩

/-- The Monday of the week in which 2025 begins. -/
def december2024 : Timestamp := ⟨2024, 12, 30, 0, 0, 0, 0, by decide, by decide, by decide, by decide⟩

def newYear2025 : Timestamp := ⟨2025, 1, 1, 0, 0, 0, 0, by decide, by decide, by decide, by decide⟩

theorem not_partitions {db : DatabaseType} {bucket : TemporalBucket} (t t' : Timestamp)
    (h : ¬((emitted db bucket).value t = (emitted db bucket).value t' ↔ t.dateTrunc bucket = t'.dateTrunc bucket)) :
    ¬Partitions db bucket :=
  fun hall => h (hall t t').1

theorem unfaithful (db : DatabaseType) (bucket : TemporalBucket) (h : Faithful db bucket = false) :
    ¬Partitions db bucket := by
  cases db with
  | postgresql => cases h
  | mysql | sqlite =>
    cases bucket with
    | week => exact not_partitions december2024 newYear2025 (by decide)
    | quarter => exact not_partitions newYear2024 april2024 (by decide)
    | _ => cases h
  | sqlserver =>
    cases bucket with
    | day => cases h
    | month => cases h
    | year => cases h
    | _ => exact not_partitions newYear2024 newYear2025 (by decide)

/-- The expression of a bucket partitions time as `DATE_TRUNC` does, and in its order, exactly for these databases and
buckets. -/
theorem temporal_buckets_iff (db : DatabaseType) (bucket : TemporalBucket) :
    (∀ column, temporalBucketSql db column bucket = (emitted db bucket).text column) ∧
      (Partitions db bucket ↔ Faithful db bucket = true) := by
  refine ⟨fun column => temporalBucketSql_eq db column bucket, fun h => ?_, fun h => ?_⟩
  · by_contra hnot
    exact unfaithful db bucket (by simpa using hnot) h
  · cases db with
    | postgresql => exact fun _ _ => ⟨Iff.rfl, Iff.rfl⟩
    | mysql => exact formats_partition (.inl rfl) bucket h
    | sqlite => exact formats_partition (.inr rfl) bucket h
    | sqlserver => exact sqlserver_partitions bucket h

/-- SQLite puts the four quarters of a year into one. -/
theorem quarters_collapse : ¬∀ db bucket, Partitions db bucket :=
  fun h => unfaithful .sqlite .quarter rfl (h .sqlite .quarter)

end FraiseQL.TemporalBuckets
