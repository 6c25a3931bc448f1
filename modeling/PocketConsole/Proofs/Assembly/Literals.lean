import Mathlib.Tactic.IntervalCases
import PocketConsole.Proofs.Assembly.LetterCase

namespace PocketConsole

namespace Literal

/-- A digit of a radix up to 16, in either case, and what it counts. -/
def Digit (radix : Nat) (c : Char) (d : Nat) : Prop :=
  d < radix ∧ (c = Nat.digitChar d ∨ c = (Nat.digitChar d).toUpper)

/-- One or more digits of a radix, and the number they denote. -/
inductive Digits (radix : Nat) : List Char → Nat → Prop
  | single {c : Char} {d : Nat} : Digit radix c d → Digits radix [c] d
  | append {ds : List Char} {c : Char} {n d : Nat} : Digits radix ds n → Digit radix c d →
      Digits radix (ds ++ [c]) (n * radix + d)

/-- At most one sign, and what it multiplies by. -/
inductive Sign : List Char → Int → Prop
  | absent : Sign [] 1
  | plus : Sign ['+'] 1
  | minus : Sign ['-'] (-1)

/-- What announces the digits of a radix. -/
inductive Mark : Nat → List Char → Prop
  | hexadecimal {x : Char} : x = 'x' ∨ x = 'X' → Mark 16 ['0', x]
  | octal {x : Char} : x = 'o' ∨ x = 'O' → Mark 8 ['0', x]
  | binary {x : Char} : x = 'b' ∨ x = 'B' → Mark 2 ['0', x]

theorem digit?_digitChar (radix : Nat) (d : Fin 16) :
    digit? radix (Nat.digitChar d) = if d < radix then some d.val else none := by
  fin_cases d <;> rfl

theorem digit_of_digit? {radix : Nat} (small : radix ≤ 16) {c : Char} {d : Nat}
    (found : digit? radix c = some d) : Digit radix c d := by
  simp only [digit?, Option.ite_none_right_eq_some, Option.some.injEq] at found
  obtain ⟨below, value⟩ := found
  rw [value] at below
  refine ⟨below, ?_⟩
  -- A letter beyond 'f' has a value, but none below 16.
  have range : (48 ≤ c.toNat ∧ c.toNat ≤ 57 ∧ d = c.toNat - 48) ∨
      (97 ≤ c.toNat ∧ c.toNat ≤ 102 ∧ d = c.toNat - 97 + 10) ∨
      (65 ≤ c.toNat ∧ c.toNat ≤ 70 ∧ d = c.toNat - 65 + 10) := by
    split at value
    · rename_i decimal
      obtain ⟨low, high⟩ : 48 ≤ c.toNat ∧ c.toNat ≤ 57 := decimal
      have zero : '0'.toNat = 48 := rfl
      omega
    · split at value
      · rename_i small
        obtain ⟨low, high⟩ : 97 ≤ c.toNat ∧ c.toNat ≤ 122 := small
        have a : 'a'.toNat = 97 := rfl
        omega
      · split at value
        · rename_i capital
          obtain ⟨low, high⟩ : 65 ≤ c.toNat ∧ c.toNat ≤ 90 := capital
          have a : 'A'.toNat = 65 := rfl
          omega
        · omega
  rw [← Char.ofNat_toNat c]
  generalize c.toNat = k at range
  rcases range with ⟨low, high, rfl⟩ | ⟨low, high, rfl⟩ | ⟨low, high, rfl⟩ <;> interval_cases k <;> decide

theorem digit?_eq_some_iff {radix : Nat} (small : radix ≤ 16) {c : Char} {d : Nat} :
    digit? radix c = some d ↔ Digit radix c d := by
  constructor
  · exact digit_of_digit? small
  · rintro ⟨below, spelled⟩
    have plain := digit?_digitChar radix ⟨d, by omega⟩
    rw [if_pos below] at plain
    rcases spelled with rfl | rfl
    · exact plain
    · rw [digit?_toUpper, plain]

theorem digits?_concat {radix : Nat} (ds : List Char) (c : Char) :
    digits? radix (ds ++ [c]) =
      (if ds = [] then some 0 else digits? radix ds).bind fun n => (digit? radix c).map fun d => n * radix + d := by
  have nonempty : ds ++ [c] ≠ [] := by simp
  rw [digits?, if_neg nonempty, List.foldlM_append, digits?]
  simp only [List.foldlM_cons, List.foldlM_nil, bind_pure]
  split
  · rename_i none
    subst none
    rfl
  · rfl

theorem digits?_eq_some_iff {radix : Nat} (small : radix ≤ 16) {ds : List Char} {n : Nat} :
    digits? radix ds = some n ↔ Digits radix ds n := by
  constructor
  · intro read
    induction ds using List.reverseRec generalizing n with
    | nil => cases read
    | append_singleton ds c ih =>
      rw [digits?_concat] at read
      obtain ⟨m, before, added⟩ := Option.bind_eq_some_iff.1 read
      obtain ⟨d, digit, rfl⟩ := Option.map_eq_some_iff.1 added
      have last := (digit?_eq_some_iff small).1 digit
      split at before
      · rename_i none
        subst none
        cases before
        rw [Nat.zero_mul, Nat.zero_add]
        exact .single last
      · exact .append (ih before) last
  · intro digits
    induction digits with
    | single last => simp [digits?, (digit?_eq_some_iff small).2 last]
    | append before last ih =>
      rename_i ds c n d
      have nonempty : ds ≠ [] := by
        rintro rfl
        cases ih
      rw [digits?_concat, if_neg nonempty, ih, (digit?_eq_some_iff small).2 last]
      rfl

/-- A signed 64-bit word holds the number. -/
def Fits (v : Int) : Prop :=
  -2 ^ 63 ≤ v ∧ v < 2 ^ 63

theorem Sign.fits {sign : List Char} {s : Int} (signed : Sign sign s) {n : Nat} (small : n < 2 ^ 63) :
    Fits (s * n) := by
  cases signed <;> constructor <;> omega

theorem narrow?_eq_some_iff {v w : Int} : narrow? v = some w ↔ Fits v ∧ w = v := by
  simp only [narrow?, Fits, Option.ite_none_right_eq_some, Option.some.injEq]
  omega

theorem Digit.isAlphanum {radix : Nat} (small : radix ≤ 16) {c : Char} {d : Nat} (digit : Digit radix c d) :
    c.isAlphanum = true := by
  have all : ∀ i : Fin 16, (Nat.digitChar i).isAlphanum = true ∧ (Nat.digitChar i).toUpper.isAlphanum = true := by
    decide
  obtain ⟨below, rfl | rfl⟩ := digit
  · exact (all ⟨d, by omega⟩).1
  · exact (all ⟨d, by omega⟩).2

theorem Digits.digit {radix : Nat} {ds : List Char} {n : Nat} (digits : Digits radix ds n) :
    ∀ c ∈ ds, ∃ d, Digit radix c d := by
  induction digits with
  | single only => simpa using ⟨_, only⟩
  | append _ last ih =>
    intro c member
    rcases List.mem_append.1 member with earlier | here
    · exact ih c earlier
    · rw [List.mem_singleton.1 here]
      exact ⟨_, last⟩

theorem Digits.isAlphanum {radix : Nat} (small : radix ≤ 16) {ds : List Char} {n : Nat} (digits : Digits radix ds n) :
    ∀ c ∈ ds, c.isAlphanum = true := by
  intro c member
  obtain ⟨d, digit⟩ := digits.digit c member
  exact digit.isAlphanum small

theorem Digits.ne_nil {radix : Nat} {ds : List Char} {n : Nat} (digits : Digits radix ds n) : ds ≠ [] := by
  cases digits <;> simp

theorem digits_toDigits {radix : Nat} (wide : 1 < radix) (small : radix ≤ 16) (n : Nat) :
    Digits radix (Nat.toDigits radix n) n := by
  induction n using Nat.strongRecOn with
  | ind n ih =>
    by_cases single : n < radix
    · rw [Nat.toDigits_of_lt_base single]
      exact .single ⟨single, .inl rfl⟩
    · have longer := Nat.toDigits_of_base_le (n := n) wide (by omega)
      have before := ih (n / radix) (Nat.div_lt_self (by omega) wide)
      have last : Digit radix (Nat.digitChar (n % radix)) (n % radix) := ⟨Nat.mod_lt _ (by omega), .inl rfl⟩
      have digits := Digits.append before last
      rwa [← longer, Nat.div_add_mod'] at digits

/-- No sign stands in front. -/
def Plain (cs : List Char) : Prop :=
  ∀ c ∈ cs.head?, c ≠ '+' ∧ c ≠ '-'

theorem Digits.plain {radix : Nat} (small : radix ≤ 16) {ds : List Char} {n : Nat} (digits : Digits radix ds n) :
    Plain ds := by
  intro c first
  have letter := digits.isAlphanum small c (List.mem_of_mem_head? first)
  constructor <;> rintro rfl <;> cases letter

/-- Of a text a sign can be taken, if one stands in front. -/
theorem exists_sign (cs : List Char) :
    ∃ sign s rest, Sign sign s ∧ cs = sign ++ rest ∧ (sign = [] → Plain rest) := by
  rcases cs with _ | ⟨c, cs⟩
  · exact ⟨[], 1, [], .absent, rfl, fun _ => by simp [Plain]⟩
  · by_cases plus : c = '+'
    · exact ⟨['+'], 1, cs, .plus, by rw [plus]; rfl, by simp⟩
    · by_cases minus : c = '-'
      · exact ⟨['-'], -1, cs, .minus, by rw [minus]; rfl, by simp⟩
      · exact ⟨[], 1, c :: cs, .absent, rfl, fun _ => by simp [Plain, plus, minus]⟩

theorem signed?_append {radix : Nat} {sign ds : List Char} {s : Int} (signed : Sign sign s)
    (plain : sign = [] → Plain ds) :
    signed? radix (sign ++ ds) = (digits? radix ds).bind fun n => narrow? (s * n) := by
  cases signed with
  | plus => simp only [List.singleton_append, signed?_cons, if_true, Int.one_mul]
  | minus => simp [signed?_cons]
  | absent =>
    cases ds with
    | nil => simp [signed?, digits?]
    | cons c ds =>
      obtain ⟨plus, minus⟩ := plain rfl c rfl
      simp only [List.nil_append, signed?_cons, plus, minus, if_false, Int.one_mul]

/-- At most one sign and digits of a radix. -/
inductive Signed (radix : Nat) : List Char → Int → Prop
  | parts {sign ds : List Char} {s : Int} {n : Nat} : Sign sign s → Digits radix ds n → Fits (s * n) →
      Signed radix (sign ++ ds) (s * n)

theorem signed?_eq_some_iff {radix : Nat} (small : radix ≤ 16) {cs : List Char} {v : Int} :
    signed? radix cs = some v ↔ Signed radix cs v := by
  constructor
  · intro read
    obtain ⟨sign, s, ds, signed, rfl, plain⟩ := exists_sign cs
    rw [signed?_append signed plain] at read
    obtain ⟨n, digits, narrow⟩ := Option.bind_eq_some_iff.1 read
    obtain ⟨fits, rfl⟩ := narrow?_eq_some_iff.1 narrow
    exact .parts signed ((digits?_eq_some_iff small).1 digits) fits
  · rintro ⟨signed, digits, fits⟩
    rw [signed?_append signed fun _ => digits.plain small, (digits?_eq_some_iff small).2 digits]
    exact narrow?_eq_some_iff.2 ⟨fits, rfl⟩

theorem radix?_eq_some_iff {x : Char} {radix : Nat} : radix? x = some radix ↔ Mark radix ['0', x] := by
  constructor
  · intro found
    unfold radix? at found
    split at found <;> cases found
    · exact .hexadecimal (.inl rfl)
    · exact .hexadecimal (.inr rfl)
    · exact .octal (.inl rfl)
    · exact .octal (.inr rfl)
    · exact .binary (.inl rfl)
    · exact .binary (.inr rfl)
  · intro mark
    cases mark with
    | hexadecimal letter | octal letter | binary letter => rcases letter with rfl | rfl <;> rfl

theorem Mark.le {radix : Nat} {mark : List Char} (announced : Mark radix mark) : radix ≤ 16 := by
  cases announced <;> decide

theorem Mark.isAlphanum {radix : Nat} {mark : List Char} (announced : Mark radix mark) :
    ∀ c ∈ mark, c.isAlphanum = true := by
  cases announced with
  | hexadecimal letter | octal letter | binary letter => rcases letter with rfl | rfl <;> simp

theorem Mark.exists_letter {radix : Nat} {mark : List Char} (announced : Mark radix mark) : ∃ x, mark = ['0', x] := by
  cases announced <;> exact ⟨_, rfl⟩

theorem Signed.fits {radix : Nat} {cs : List Char} {v : Int} (signed : Signed radix cs v) : Fits v := by
  cases signed with
  | parts _ _ fits => exact fits

theorem Signed.digits_of_plain {radix : Nat} {cs : List Char} {v : Int} (signed : Signed radix cs v)
    (plain : Plain cs) : ∃ n : Nat, Digits radix cs n ∧ v = n := by
  obtain ⟨sign, digits, -⟩ := signed
  cases sign with
  | absent => exact ⟨_, digits, Int.one_mul _⟩
  | plus => exact absurd rfl (plain '+' rfl).1
  | minus => exact absurd rfl (plain '-' rfl).2

/-- What may stand behind the sign of a literal. -/
inductive Unsigned : List Char → Int → Prop
  | decimal {ds : List Char} {n : Nat} : Digits 10 ds n → n < 2 ^ 63 → Unsigned ds n
  | marked {radix : Nat} {mark rest : List Char} {v : Int} : Mark radix mark → Signed radix rest v →
      Unsigned (mark ++ rest) v

theorem Unsigned.fits {cs : List Char} {v : Int} (spelled : Unsigned cs v) : Fits v := by
  cases spelled with
  | decimal _ small => constructor <;> omega
  | marked _ signed => exact signed.fits

theorem Unsigned.plain {cs : List Char} {v : Int} (spelled : Unsigned cs v) : Plain cs := by
  cases spelled with
  | decimal digits _ => exact digits.plain (by decide)
  | marked announced _ =>
    obtain ⟨x, rfl⟩ := announced.exists_letter
    simp [Plain]

theorem unsigned?_marked {radix : Nat} {mark : List Char} (announced : Mark radix mark) (rest : List Char) :
    unsigned? (mark ++ rest) = signed? radix rest := by
  obtain ⟨x, rfl⟩ := announced.exists_letter
  have found := radix?_eq_some_iff.2 announced
  simp [unsigned?_cons, found]

theorem Digit.radix?_eq_none {x : Char} {d : Nat} (digit : Digit 10 x d) : radix? x = none := by
  have all : ∀ i : Fin 10, radix? (Nat.digitChar i) = none := by decide
  obtain ⟨below, rfl | rfl⟩ := digit
  · exact all ⟨d, below⟩
  · rw [radix?_toUpper]
    exact all ⟨d, below⟩

theorem unsigned?_decimal {ds : List Char} {n : Nat} (digits : Digits 10 ds n) : unsigned? ds = signed? 10 ds := by
  rcases ds with _ | ⟨c, _ | ⟨x, ds⟩⟩
  · rfl
  · have plain := digits.plain (by decide) c rfl
    simp [unsigned?_cons, plain]
  · have plain := digits.plain (by decide) c rfl
    obtain ⟨d, digit⟩ := digits.digit x (by simp)
    simp [unsigned?_cons, plain, digit.radix?_eq_none]

theorem unsigned?_eq_some_iff {cs : List Char} {v : Int} : unsigned? cs = some v ↔ Unsigned cs v := by
  constructor
  · intro read
    cases cs with
    | nil => cases read
    | cons c cs =>
      rw [unsigned?_cons, Option.ite_none_left_eq_some] at read
      obtain ⟨unsigned, read⟩ := read
      split at read
      · rename_i radix announced
        obtain ⟨zero, letter⟩ := Option.ite_none_right_eq_some.1 announced
        obtain ⟨x, first, found⟩ := Option.bind_eq_some_iff.1 letter
        obtain ⟨rest, rfl⟩ := List.head?_eq_some_iff.1 first
        have mark := radix?_eq_some_iff.1 found
        subst zero
        exact .marked mark ((signed?_eq_some_iff mark.le).1 read)
      · have spelled := (signed?_eq_some_iff (by decide)).1 read
        have fits := spelled.fits
        obtain ⟨n, digits, rfl⟩ := spelled.digits_of_plain (by simpa [Plain] using unsigned)
        exact .decimal digits (by have := fits.2; omega)
  · intro spelled
    cases spelled with
    | @decimal _ n digits small =>
      have signed := Signed.parts .absent digits (Sign.absent.fits small)
      rw [Int.one_mul] at signed
      rw [unsigned?_decimal digits]
      exact (signed?_eq_some_iff (by decide)).2 signed
    | marked announced signed =>
      rw [unsigned?_marked announced]
      exact (signed?_eq_some_iff announced.le).2 signed

theorem parse?_append {sign cs : List Char} {s : Int} (signed : Sign sign s) (plain : sign = [] → Plain cs) :
    parse? (sign ++ cs) = (unsigned? cs).bind fun v => narrow? (s * v) := by
  have positive : unsigned? cs = (unsigned? cs).bind fun v => narrow? (1 * v) := by
    cases read : unsigned? cs with
    | none => rfl
    | some v =>
      rw [Option.bind_some, Int.one_mul]
      exact (narrow?_eq_some_iff.2 ⟨(unsigned?_eq_some_iff.1 read).fits, rfl⟩).symm
  cases signed with
  | plus => simpa [parse?_cons] using positive
  | minus => simp [parse?_cons]
  | absent =>
    rw [← positive]
    cases cs with
    | nil => rfl
    | cons c cs =>
      obtain ⟨plus, minus⟩ := plain rfl c rfl
      simp [parse?_cons, plus, minus]

/-- The documented spellings of an integer: at most one sign, and then decimal digits or digits of the radix
that is announced. -/
inductive Spelled : List Char → Int → Prop
  | decimal {sign ds : List Char} {s : Int} {n : Nat} : Sign sign s → Digits 10 ds n → n < 2 ^ 63 →
      Spelled (sign ++ ds) (s * n)
  | marked {sign mark ds : List Char} {s : Int} {radix n : Nat} : Sign sign s → Mark radix mark →
      Digits radix ds n → n < 2 ^ 63 → Spelled (sign ++ (mark ++ ds)) (s * n)

/-- The spellings with a second sign, which stands between the mark of a radix and its digits. -/
inductive TwiceSigned : List Char → Int → Prop
  | parts {sign mark ds : List Char} {inner : Char} {s v : Int} {radix : Nat} : Sign sign s → Mark radix mark →
      inner = '+' ∨ inner = '-' → Signed radix (inner :: ds) v → Fits (s * v) →
      TwiceSigned (sign ++ (mark ++ inner :: ds)) (s * v)

theorem parse?_of_unsigned {sign cs : List Char} {s v : Int} (signed : Sign sign s) (spelled : Unsigned cs v)
    (fits : Fits (s * v)) : parse? (sign ++ cs) = some (s * v) := by
  rw [parse?_append signed fun _ => spelled.plain, unsigned?_eq_some_iff.2 spelled]
  exact narrow?_eq_some_iff.2 ⟨fits, rfl⟩

/-- Every documented spelling is read as the number it denotes. -/
theorem parse?_of_spelled {word : List Char} {v : Int} (spelled : Spelled word v) : parse? word = some v := by
  cases spelled with
  | decimal signed digits small => exact parse?_of_unsigned signed (.decimal digits small) (signed.fits small)
  | @marked _ _ _ _ _ n signed announced digits small =>
    have inner := Signed.parts .absent digits (Sign.absent.fits small)
    rw [Int.one_mul] at inner
    exact parse?_of_unsigned signed (.marked announced inner) (signed.fits small)

theorem parse?_of_twiceSigned {word : List Char} {v : Int} (spelled : TwiceSigned word v) : parse? word = some v := by
  cases spelled with
  | parts signed announced _ inner fits => exact parse?_of_unsigned signed (.marked announced inner) fits

/-- Nothing is read but the documented spellings and those with a second sign behind the mark of a radix. -/
theorem spelled_of_parse? {word : List Char} {v : Int} (read : parse? word = some v) :
    Spelled word v ∨ TwiceSigned word v := by
  obtain ⟨sign, s, rest, signed, rfl, plain⟩ := exists_sign word
  rw [parse?_append signed plain] at read
  obtain ⟨u, found, narrow⟩ := Option.bind_eq_some_iff.1 read
  obtain ⟨fits, rfl⟩ := narrow?_eq_some_iff.1 narrow
  cases unsigned?_eq_some_iff.1 found with
  | decimal digits small => exact .inl (.decimal signed digits small)
  | marked announced inner =>
    cases inner with
    | @parts t ds _ n innerSign digits innerFits =>
      cases innerSign with
      | absent =>
        rw [Int.one_mul] at innerFits ⊢
        exact .inl (.marked signed announced digits (by have := innerFits.2; omega))
      | plus => exact .inr (.parts signed announced (.inl rfl) (.parts .plus digits innerFits) fits)
      | minus => exact .inr (.parts signed announced (.inr rfl) (.parts .minus digits innerFits) fits)

/-- A literal is read exactly if it is a documented spelling or has a second sign behind the mark of a radix. -/
theorem parse?_eq_some_iff (word : List Char) (v : Int) :
    parse? word = some v ↔ Spelled word v ∨ TwiceSigned word v := by
  constructor
  · exact spelled_of_parse?
  · rintro (spelled | twice)
    · exact parse?_of_spelled spelled
    · exact parse?_of_twiceSigned twice

/-- Behind its sign a documented spelling has letters and digits alone. -/
theorem Spelled.exists_body {word : List Char} {v : Int} (spelled : Spelled word v) :
    ∃ sign s body, Sign sign s ∧ word = sign ++ body ∧ body ≠ [] ∧ ∀ c ∈ body, c.isAlphanum = true := by
  cases spelled with
  | decimal signed digits _ => exact ⟨_, _, _, signed, rfl, digits.ne_nil, digits.isAlphanum (by decide)⟩
  | marked signed announced digits _ =>
    refine ⟨_, _, _, signed, rfl, by simp [digits.ne_nil], fun c member => ?_⟩
    rcases List.mem_append.1 member with early | late
    · exact announced.isAlphanum c early
    · exact digits.isAlphanum announced.le c late

theorem Spelled.isAlphanum_tail {word : List Char} {v : Int} (spelled : Spelled word v) :
    ∀ c ∈ word.tail, c.isAlphanum = true := by
  obtain ⟨sign, s, body, signed, rfl, -, letters⟩ := spelled.exists_body
  intro c member
  cases signed with
  | absent => exact letters c (List.mem_of_mem_tail member)
  | plus | minus => exact letters c member

theorem TwiceSigned.not_spelled {word : List Char} {v w : Int} (twice : TwiceSigned word v) : ¬ Spelled word w := by
  intro spelled
  cases twice with
  | @parts sign mark ds inner s v radix outer announced signs _ _ =>
    obtain ⟨x, rfl⟩ := announced.exists_letter
    have letter := spelled.isAlphanum_tail inner (by cases outer <;> simp)
    rcases signs with rfl | rfl <;> cases letter

theorem parse?_sign_behind_mark :
    parse? "0x+5".toList = some 5 ∧ ∀ v, ¬ Spelled "0x+5".toList v := by
  have digit : Digits 16 ['5'] 5 := .single ⟨by decide, .inl rfl⟩
  have inner : Signed 16 ['+', '5'] (1 * 5) := .parts .plus digit (Sign.plus.fits (n := 5) (by decide))
  have twice : TwiceSigned "0x+5".toList (1 * (1 * 5)) :=
    .parts .absent (.hexadecimal (.inl rfl)) (.inl rfl) inner (Sign.plus.fits (n := 5) (by decide))
  exact ⟨by decide, fun v => twice.not_spelled⟩

end Literal

end PocketConsole
