import Mathlib
import SchemaGraph.Json.Printer
import SchemaGraph.Json.Reader
import SchemaGraph.Proofs.Decimal.Text

/-!
# Compact text names its value

Two values without infinite or NaN doubles share a compact text only if they are the
same (`Finite.eq_of_compact`).  Stated with what may follow a value
(`Finite.compact_inj`), this goes through arrays and objects: after a value comes the
end, a comma or a closing bracket, none of which a number or a word contains, and a
quoted text ends at the first quote that is not escaped (`readChars_quote`).

A double that is not finite has the text of null, so the restriction stands.
-/

namespace SchemaGraph.Json

/-! ## Quoted texts -/

theorem readUnit_ofNat {n : Nat} (hn : n < 32) (cs : List Char) :
    readUnit (Text.Hex.ofNat 4 n ++ cs) = some (n, cs) := by
  have hvalue (m : Nat) : Text.Hex.value? (Text.Hex.digit (m % 16)) = some (m % 16) :=
    Text.Hex.value_digit _ (Nat.mod_lt m (by decide))
  simp only [Text.Hex.ofNat, List.nil_append, List.cons_append, readUnit, hvalue,
    Option.bind_eq_bind, Option.bind_some, pure]
  have hsum : ((n / 16 / 16 / 16 % 16 * 16 + n / 16 / 16 % 16) * 16 + n / 16 % 16) * 16 + n % 16 = n := by
    omega
  rw [hsum]

/-- One step of reading undoes the escape of one character. -/
theorem readChars_escape (c : Char) (steps : Nat) (seen cs : List Char) :
    readChars (steps + 1) seen (escape c ++ cs) = readChars steps (c :: seen) cs := by
  rw [escape]
  split_ifs with hquote hslash hfeed hreturn htab hback hform hlow
  · subst hquote
    rfl
  · subst hslash
    rfl
  · subst hfeed
    rfl
  · subst hreturn
    rfl
  · subst htab
    rfl
  · subst hback
    rfl
  · subst hform
    rfl
  · have hunit : readEscapedUnit (Text.Hex.ofNat 4 c.toNat ++ cs) = some (c, cs) := by
      rw [readEscapedUnit, readUnit_ofNat hlow]
      dsimp only
      rw [if_neg (by omega), if_neg (by omega), Char.ofNat_toNat]
    simp only [List.cons_append, readChars, hunit]
  · rw [List.singleton_append, readChars.eq_def]
    split <;> simp_all

theorem readChars_quoted (cs : List Char) {steps : Nat} (h : cs.length < steps)
    (seen rest : List Char) :
    readChars steps seen (cs.flatMap escape ++ '"' :: rest) =
      some (String.ofList (seen.reverse ++ cs), rest) := by
  induction cs generalizing steps seen with
  | nil =>
      obtain ⟨steps, rfl⟩ := Nat.exists_eq_succ_of_ne_zero (Nat.ne_of_gt h)
      rw [List.append_nil]
      rfl
  | cons c cs ih =>
      obtain ⟨steps, rfl⟩ := Nat.exists_eq_succ_of_ne_zero (Nat.ne_of_gt (Nat.zero_lt_of_lt h))
      rw [List.flatMap_cons, List.append_assoc, readChars_escape,
        ih (Nat.lt_of_succ_lt_succ h), List.reverse_cons, List.append_assoc]
      rfl

theorem toList_quote (s : String) :
    (quote s).toList = '"' :: (s.toList.flatMap escape ++ ['"']) := by
  rw [quote, String.toList_ofList]

/-- A quoted text is read back, whatever follows it. -/
theorem readChars_quote (s : String) {steps : Nat} (h : s.toList.length < steps) (rest : List Char) :
    readChars steps [] ((quote s).toList.tail ++ rest) = some (s, rest) := by
  rw [toList_quote, List.tail_cons, List.append_assoc, List.singleton_append, readChars_quoted _ h,
    List.reverse_nil, List.nil_append, String.ofList_toList]

theorem quote_inj {s s' : String} {rest rest' : List Char}
    (h : (quote s).toList ++ rest = (quote s').toList ++ rest') : s = s' ∧ rest = rest' := by
  have htail : (quote s).toList.tail ++ rest = (quote s').toList.tail ++ rest' := by
    rw [toList_quote, toList_quote] at h ⊢
    exact (List.cons.inj h).2
  have hsteps : s.toList.length < s.toList.length + s'.toList.length + 1 := by omega
  have hread := readChars_quote s hsteps rest
  rw [htail, readChars_quote s' (by omega)] at hread
  exact Prod.mk.inj (Option.some.inj hread.symm)

/-! ## What follows a value -/

/-- A comma or the end of an array or an object. -/
def isClosing (c : Char) : Bool := c == ',' || c == ']' || c == '\x7d'

/-- What may follow a value: nothing, or what starts with a comma or a closing bracket. -/
def Ends (rest : List Char) : Prop := ∀ c ∈ rest.head?, isClosing c = true

theorem ends_cons {c : Char} (h : isClosing c = true) (rest : List Char) : Ends (c :: rest) := by
  intro d hd
  rwa [← Option.some.inj hd]

/-! ## Lists with commas -/

section Listed

variable {α : Type}

/-- Texts with commas between them. -/
def listed (f : α → List Char) : List α → List Char
  | [] => []
  | a :: as => f a ++ as.flatMap fun b => ',' :: f b

variable {f : α → List Char} {close : Char} {as as' : List α} {rest rest' : List Char}

theorem ends_listed (hclose : isClosing close = true) (as : List α) (rest : List Char) :
    Ends ((as.flatMap fun b => ',' :: f b) ++ close :: rest) := by
  cases as with
  | nil => exact ends_cons hclose rest
  | cons a as => exact ends_cons rfl _

/-- Items after the first one are told apart if each item is. -/
theorem flatMap_comma_inj (hclose : isClosing close = true) (hcomma : close ≠ ',')
    (hf : ∀ a ∈ as, ∀ a' ∈ as', ∀ rest rest', Ends rest → Ends rest' →
      f a ++ rest = f a' ++ rest' → a = a' ∧ rest = rest')
    (h : (as.flatMap fun b => ',' :: f b) ++ close :: rest =
      (as'.flatMap fun b => ',' :: f b) ++ close :: rest') : as = as' ∧ rest = rest' := by
  induction as generalizing as' with
  | nil =>
      cases as' with
      | nil => exact ⟨rfl, (List.cons.inj h).2⟩
      | cons a' as' => exact absurd (List.cons.inj h).1 hcomma
  | cons a as ih =>
      cases as' with
      | nil => exact absurd (List.cons.inj h).1.symm hcomma
      | cons a' as' =>
          rw [List.flatMap_cons, List.flatMap_cons, List.cons_append, List.cons_append,
            List.cons_append, List.cons_append, List.append_assoc, List.append_assoc] at h
          obtain ⟨rfl, htail⟩ := hf a List.mem_cons_self a' List.mem_cons_self _ _
            (ends_listed hclose as rest) (ends_listed hclose as' rest') (List.cons.inj h).2
          obtain ⟨rfl, hrest⟩ := ih (fun b hb b' hb' =>
            hf b (List.mem_cons_of_mem _ hb) b' (List.mem_cons_of_mem _ hb')) htail
          exact ⟨rfl, hrest⟩

/-- Lists up to a closing bracket are told apart if each item is, and none starts with
the bracket. -/
theorem listed_inj (hclose : isClosing close = true) (hcomma : close ≠ ',')
    (hopen : ∀ a rest, (f a ++ rest).head? ≠ some close)
    (hf : ∀ a ∈ as, ∀ a' ∈ as', ∀ rest rest', Ends rest → Ends rest' →
      f a ++ rest = f a' ++ rest' → a = a' ∧ rest = rest')
    (h : listed f as ++ close :: rest = listed f as' ++ close :: rest') : as = as' ∧ rest = rest' := by
  cases as with
  | nil =>
      cases as' with
      | nil => exact ⟨rfl, (List.cons.inj h).2⟩
      | cons a' as' =>
          rw [listed, listed, List.append_assoc] at h
          exact absurd (congrArg List.head? h.symm) (hopen a' _)
  | cons a as =>
      cases as' with
      | nil =>
          rw [listed, listed, List.append_assoc] at h
          exact absurd (congrArg List.head? h) (hopen a _)
      | cons a' as' =>
          rw [listed, listed, List.append_assoc, List.append_assoc] at h
          obtain ⟨rfl, htail⟩ := hf a List.mem_cons_self a' List.mem_cons_self _ _
            (ends_listed hclose as rest) (ends_listed hclose as' rest') h
          obtain ⟨rfl, hrest⟩ := flatMap_comma_inj hclose hcomma (fun b hb b' hb' =>
            hf b (List.mem_cons_of_mem _ hb) b' (List.mem_cons_of_mem _ hb')) htail
          exact ⟨rfl, hrest⟩

end Listed

/-- The text of an entry. -/
def entryChars (entry : String × Json) : List Char :=
  (quote entry.1).toList ++ ':' :: (compact entry.2).toList

theorem toList_compactItems (items : List Json) :
    (compactItems items).toList = listed (fun v => (compact v).toList) items := by
  have hcons (v : Json) (items : List Json) : (compactItems (v :: items)).toList =
      (compact v).toList ++ items.flatMap fun v => ',' :: (compact v).toList := by
    induction items generalizing v with
    | nil => rw [compactItems, List.flatMap_nil, List.append_nil]
    | cons w items ih =>
        rw [compactItems, String.toList_append, String.toList_append, ih, List.flatMap_cons,
          List.append_assoc]
        · rfl
        · exact List.cons_ne_nil _ _
  cases items with
  | nil => rfl
  | cons v items => exact hcons v items

theorem toList_compactEntries (entries : List (String × Json)) :
    (compactEntries entries).toList = listed entryChars entries := by
  have hcons (entry : String × Json) (entries : List (String × Json)) :
      (compactEntries (entry :: entries)).toList =
        entryChars entry ++ entries.flatMap fun entry => ',' :: entryChars entry := by
    induction entries generalizing entry with
    | nil =>
        rw [compactEntries, List.flatMap_nil, List.append_nil, entryChars, String.toList_append,
          String.toList_append, List.append_assoc]
        rfl
    | cons next entries ih =>
        rw [compactEntries, String.toList_append, ih, List.flatMap_cons]
        · simp [entryChars]
        · exact List.cons_ne_nil _ _
  cases entries with
  | nil => rfl
  | cons entry entries => exact hcons entry entries

/-! ## Numbers and words -/

/-- What a value starts like. -/
inductive Form where
  | scalar
  | string
  | array
  | object
  deriving DecidableEq

/-- What the first character of a value says. -/
def Form.ofChar (c : Char) : Form :=
  if c = '"' then .string else if c = '[' then .array else if c = '\x7b' then .object else .scalar

/-- The form of a value. -/
def form : Json → Form
  | .string _ => .string
  | .array _ => .array
  | .object _ => .object
  | _ => .scalar

/-- Characters that no number and no word contains. -/
def isPunctuation (c : Char) : Bool :=
  isClosing c || c == '"' || c == '[' || c == '\x7b'

/-- The characters that numbers are written with. -/
def isNumeral (c : Char) : Bool :=
  c.isDigit || c == '.' || c == 'e' || c == '-' || c == '+'

theorem isPunctuation_of_isNumeral {c : Char} (h : isNumeral c = true) : isPunctuation c = false := by
  refine Bool.eq_false_iff.mpr fun hpunctuation => ?_
  simp only [isPunctuation, isClosing, Bool.or_eq_true, beq_iff_eq] at hpunctuation
  rcases hpunctuation with ((((rfl | rfl) | rfl) | rfl) | rfl) | rfl <;> cases h

theorem mem_toString {n : Int} {c : Char} (hc : c ∈ (toString n).toList) :
    c.isDigit = true ∨ c = '-' := by
  have hdigit {n : Nat} (hc : c ∈ n.repr.toList) : c.isDigit = true := by
    rw [Nat.repr_eq_ofList_toDigits, String.toList_ofList] at hc
    exact Nat.isDigit_of_mem_toDigits (by decide) (by decide) hc
  rw [Int.toString_eq_repr, Int.repr_eq_if] at hc
  split at hc
  · exact Or.inl (hdigit hc)
  · rw [String.toList_append, List.mem_append] at hc
    exact hc.symm.imp hdigit List.mem_singleton.mp

theorem isNumeral_of_mem_toString {n : Int} {c : Char} (hc : c ∈ (toString n).toList) :
    isNumeral c = true := by
  rcases mem_toString hc with hdigit | rfl
  · simp [isNumeral, hdigit]
  · rfl

theorem isNumeral_of_mem_text {x : Binary64} {c : Char} (hc : c ∈ (Decimal.text x).toList) :
    isNumeral c = true := by
  rcases Decimal.mem_text hc with hdigit | rfl | rfl | rfl | rfl
  · simp [isNumeral, hdigit]
  all_goals rfl

theorem toString_ne_text (n : Int) (x : Binary64) : toString n ≠ Decimal.text x := by
  intro h
  rcases Decimal.exists_mark x with hmark | hmark <;> rw [← h] at hmark <;>
    rcases mem_toString hmark with hdigit | hminus
  · cases hdigit
  · cases hminus
  · cases hdigit
  · cases hminus

theorem toString_int_injective : Function.Injective (toString : Int → String) := fun n n' h =>
  Int.repr_injective (by rwa [← Int.toString_eq_repr, ← Int.toString_eq_repr])

theorem toString_ne_nil (n : Int) : (toString n).toList ≠ [] := by
  rw [Int.toString_eq_repr, Int.repr_eq_if]
  split
  · rw [Nat.repr_eq_ofList_toDigits, String.toList_ofList]
    exact Nat.toDigits_ne_nil
  · rw [String.toList_append]
    exact List.cons_ne_nil _ _

theorem word_chars {word : String} (h : word ∈ ["null", "true", "false"]) :
    word.toList ≠ [] ∧ ∀ c ∈ word.toList, isPunctuation c = false := by
  simp only [List.mem_cons, List.not_mem_nil, or_false] at h
  rcases h with rfl | rfl | rfl <;> simp [isPunctuation, isClosing]

/-- Numbers and words are not empty and contain no punctuation. -/
theorem scalar_chars {v : Json} (hv : v.form = .scalar) :
    (compact v).toList ≠ [] ∧ ∀ c ∈ (compact v).toList, isPunctuation c = false := by
  cases v with
  | null => exact word_chars (by simp [compact])
  | bool b => exact word_chars (by cases b <;> simp [compact])
  | int n =>
      exact ⟨toString_ne_nil n, fun c hc =>
        isPunctuation_of_isNumeral (isNumeral_of_mem_toString hc)⟩
  | float x =>
      rw [compact, floatText]
      split
      · refine ⟨fun hnil => ?_, fun c hc => isPunctuation_of_isNumeral (isNumeral_of_mem_text hc)⟩
        rcases Decimal.exists_mark x with hmark | hmark <;> rw [hnil] at hmark <;> cases hmark
      · exact word_chars (by simp)
  | string s => cases hv
  | array items => cases hv
  | object entries => cases hv

/-- The first character of a value says its form, and closes nothing. -/
theorem head?_compact (v : Json) (rest : List Char) :
    ∃ c, ((compact v).toList ++ rest).head? = some c ∧ Form.ofChar c = v.form ∧
      isClosing c = false := by
  have hscalar {v : Json} (hv : v.form = .scalar) :
      ∃ c, ((compact v).toList ++ rest).head? = some c ∧ Form.ofChar c = v.form ∧
        isClosing c = false := by
    obtain ⟨hne, hchars⟩ := scalar_chars hv
    obtain ⟨c, cs, hc⟩ := List.exists_cons_of_ne_nil hne
    have hpunctuation := hchars c (hc ▸ List.mem_cons_self)
    simp only [isPunctuation, Bool.or_eq_false_iff, beq_eq_false_iff_ne] at hpunctuation
    obtain ⟨⟨⟨hclosing, hquote⟩, hbracket⟩, hbrace⟩ := hpunctuation
    refine ⟨c, by rw [hc]; rfl, ?_, hclosing⟩
    rw [Form.ofChar, if_neg hquote, if_neg hbracket, if_neg hbrace, hv]
  cases v with
  | null => exact hscalar rfl
  | bool b => exact hscalar rfl
  | int n => exact hscalar rfl
  | float x => exact hscalar rfl
  | string s => exact ⟨'"', by rw [compact, toList_quote]; rfl, rfl, rfl⟩
  | array items => exact ⟨'[', by rw [compact, String.append_assoc, String.toList_append]; rfl, rfl, rfl⟩
  | object entries =>
      exact ⟨'\x7b', by rw [compact, String.append_assoc, String.toList_append]; rfl, rfl, rfl⟩

/-! ## Values -/

/-- A value without infinite or NaN doubles. -/
inductive Finite : Json → Prop
  | null : Finite .null
  | bool (b : Bool) : Finite (.bool b)
  | int (n : Int) : Finite (.int n)
  | float {x : Binary64} (h : x.isFinite = true) : Finite (.float x)
  | string (s : String) : Finite (.string s)
  | array {items : List Json} (h : ∀ v ∈ items, Finite v) : Finite (.array items)
  | object {entries : List (String × Json)} (h : ∀ entry ∈ entries, Finite entry.2) :
      Finite (.object entries)

variable {v v' : Json}

theorem Finite.compact_float {x : Binary64} (h : (Json.float x).Finite) :
    compact (.float x) = Decimal.text x := by
  cases h with
  | float hx => rw [compact, floatText, if_pos hx]

/-- Whether a value is a number. -/
def isNumber : Json → Bool
  | .int _ => true
  | .float _ => true
  | _ => false

/-- Numbers, and no words, are written with the characters of numbers. -/
theorem Finite.isNumber_iff (hv : v.Finite) (hform : v.form = .scalar) :
    v.isNumber = true ↔ ∀ c ∈ (compact v).toList, isNumeral c = true := by
  cases hv with
  | null => exact iff_of_false Bool.false_ne_true fun h => by cases h 'n' (by simp [compact])
  | bool b =>
      refine iff_of_false Bool.false_ne_true fun h => ?_
      cases b with
      | true => cases h 't' (by simp [compact])
      | false => cases h 'f' (by simp [compact])
  | int n => exact iff_of_true rfl fun c hc => isNumeral_of_mem_toString hc
  | float hx =>
      rw [compact, floatText, if_pos hx]
      exact iff_of_true rfl fun c hc => isNumeral_of_mem_text hc
  | string s => cases hform
  | array h => cases hform
  | object h => cases hform

/-- Numbers and words with the same text are the same. -/
theorem Finite.eq_of_scalar (hv : v.Finite) (hv' : v'.Finite) (hform : v.form = .scalar)
    (hform' : v'.form = .scalar) (h : compact v = compact v') : v = v' := by
  -- Numbers are not taken for words, and of two numbers only a double has a mark.
  have hnumber : v.isNumber = v'.isNumber := by
    rw [Bool.eq_iff_iff, hv.isNumber_iff hform, hv'.isNumber_iff hform', h]
  cases v with
  | null =>
      cases v' with
      | null => rfl
      | bool b' => cases b' <;> simp [compact] at h
      | int n' => cases hnumber
      | float x' => cases hnumber
      | _ => cases hform'
  | bool b =>
      cases v' with
      | null => cases b <;> simp [compact] at h
      | bool b' => cases b <;> cases b' <;> simp [compact] at h ⊢
      | int n' => cases hnumber
      | float x' => cases hnumber
      | _ => cases hform'
  | int n =>
      cases v' with
      | int n' => exact congrArg Json.int (toString_int_injective h)
      | float x' => exact absurd (h.trans hv'.compact_float) (toString_ne_text n x')
      | null => cases hnumber
      | bool b' => cases hnumber
      | _ => cases hform'
  | float x =>
      cases v' with
      | int n' => exact absurd (h.symm.trans hv.compact_float) (toString_ne_text n' x)
      | float x' =>
          rw [hv.compact_float, hv'.compact_float] at h
          exact congrArg Json.float (Decimal.text_injective h)
      | null => cases hnumber
      | bool b' => cases hnumber
      | _ => cases hform'
  | _ => cases hform

/-- Numbers and words are told apart by their texts and what follows them. -/
theorem Finite.scalar_inj (hv : v.Finite) (hv' : v'.Finite) (hform : v.form = .scalar)
    (hform' : v'.form = .scalar) {rest rest' : List Char} (hrest : Ends rest) (hrest' : Ends rest')
    (h : (compact v).toList ++ rest = (compact v').toList ++ rest') : v = v' ∧ rest = rest' := by
  have hopen {v : Json} (hform : v.form = .scalar) :
      ∀ c ∈ (compact v).toList, (!isClosing c) = true := by
    intro c hc
    have hpunctuation := (scalar_chars hform).2 c hc
    simp only [isPunctuation, Bool.or_eq_false_iff] at hpunctuation
    rw [hpunctuation.1.1.1]
    rfl
  have hends {rest : List Char} (hrest : Ends rest) : ∀ c ∈ rest.head?, (!isClosing c) = false :=
    fun c hc => by rw [hrest c hc]; rfl
  obtain ⟨htext, hrest⟩ :=
    append_inj_of_forall h (hopen hform) (hopen hform') (hends hrest) (hends hrest')
  exact ⟨hv.eq_of_scalar hv' hform hform' (String.toList_inj.mp htext), hrest⟩

theorem toList_array (items : List Json) (rest : List Char) :
    (compact (.array items)).toList ++ rest =
      '[' :: (listed (fun v => (compact v).toList) items ++ ']' :: rest) := by
  rw [compact, String.toList_append, String.toList_append, toList_compactItems]
  simp

theorem toList_object (entries : List (String × Json)) (rest : List Char) :
    (compact (.object entries)).toList ++ rest =
      '\x7b' :: (listed entryChars entries ++ '\x7d' :: rest) := by
  rw [compact, String.toList_append, String.toList_append, toList_compactEntries]
  simp

theorem form_eq_of_compact {rest rest' : List Char}
    (h : (compact v).toList ++ rest = (compact v').toList ++ rest') : v.form = v'.form := by
  obtain ⟨c, hc, hform, -⟩ := head?_compact v rest
  obtain ⟨c', hc', hform', -⟩ := head?_compact v' rest'
  rw [h, hc'] at hc
  rw [← hform, ← hform', Option.some.inj hc]

/-- Values are told apart by their texts and what follows them. -/
theorem Finite.compact_inj (hv : v.Finite) (hv' : v'.Finite) {rest rest' : List Char}
    (hrest : Ends rest) (hrest' : Ends rest')
    (h : (compact v).toList ++ rest = (compact v').toList ++ rest') : v = v' ∧ rest = rest' := by
  have hform := form_eq_of_compact h
  induction hv generalizing v' rest rest' with
  | null => exact Finite.null.scalar_inj hv' rfl hform.symm hrest hrest' h
  | bool b => exact (Finite.bool b).scalar_inj hv' rfl hform.symm hrest hrest' h
  | int n => exact (Finite.int n).scalar_inj hv' rfl hform.symm hrest hrest' h
  | float hx => exact (Finite.float hx).scalar_inj hv' rfl hform.symm hrest hrest' h
  | string s =>
      cases hv' with
      | string s' =>
          obtain ⟨rfl, hrest⟩ := quote_inj h
          exact ⟨rfl, hrest⟩
      | _ => cases hform
  | array hitems ih =>
      cases hv' with
      | array hitems' =>
          rw [toList_array, toList_array] at h
          -- No item starts with the bracket, so an empty array is no beginning of another.
          obtain ⟨rfl, hrest⟩ := listed_inj rfl (by decide)
            (fun v rest hhead => by
              obtain ⟨c, hc, -, hclosing⟩ := head?_compact v rest
              rw [hc] at hhead
              cases hhead
              cases hclosing)
            (fun v hv v' hv' rest rest' hrest hrest' h =>
              ih v hv (hitems' v' hv') hrest hrest' h (form_eq_of_compact h))
            (List.cons.inj h).2
          exact ⟨rfl, hrest⟩
      | _ => cases hform
  | object hentries ih =>
      cases hv' with
      | object hentries' =>
          rw [toList_object, toList_object] at h
          obtain ⟨rfl, hrest⟩ := listed_inj rfl (by decide)
            (fun entry rest hhead => by
              rw [entryChars, toList_quote] at hhead
              cases hhead)
            (fun entry hentry entry' hentry' rest rest' hrest hrest' h => by
              rw [entryChars, entryChars, List.append_assoc, List.append_assoc] at h
              obtain ⟨hkey, hvalue⟩ := quote_inj h
              have hvalue := (List.cons.inj hvalue).2
              obtain ⟨hvalue, hrest⟩ := ih entry hentry (hentries' entry' hentry') hrest hrest'
                hvalue (form_eq_of_compact hvalue)
              exact ⟨Prod.ext hkey hvalue, hrest⟩)
            (List.cons.inj h).2
          exact ⟨rfl, hrest⟩
      | _ => cases hform

/-- A value without infinite or NaN doubles is known by its compact text. -/
theorem Finite.eq_of_compact (hv : v.Finite) (hv' : v'.Finite) (h : compact v = compact v') :
    v = v' := by
  have hnil : Ends [] := fun c hc => by cases hc
  exact (hv.compact_inj hv' hnil hnil (by rw [h])).1

end SchemaGraph.Json
