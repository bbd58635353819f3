import ImpC.Proofs.C.Literal
import ImpC.Proofs.Text.Quoted
import ImpC.Tree.Dump

/-!
# What the line of a node tells

A node stands in the outline of its tree with a heading: a word for its kind, what it holds besides its parts, and its
static type. The heading tells all of these (`Node.kind_eq_of_heading_eq`, `eq_of_contents_eq`). The word is made of letters
and nothing behind it begins with one. The type comes behind a blank, and so what is in front of it has to be free of
blanks, which is the case for numbers, operators and the names of a program. A text literal may have blanks, but it tells by
itself where it ends.
-/

namespace ImpC

/-! ### Texts without blanks -/

/-- The text has no blank and no line feed, as the names of a program have none. -/
def Unbroken (s : String) : Prop := ∀ c ∈ s.toList, c ≠ ' ' ∧ c ≠ '\n'

theorem Unbroken.blank_notMem {s : String} (h : Unbroken s) : ' ' ∉ s.toList := fun hmem => (h ' ' hmem).1 rfl

theorem Unbroken.newline_notMem {s : String} (h : Unbroken s) : '\n' ∉ s.toList := fun hmem => (h '\n' hmem).2 rfl

theorem unbroken_append {s t : String} (hs : Unbroken s) (ht : Unbroken t) : Unbroken (s ++ t) := by
  intro c hc
  rw [String.toList_append] at hc
  exact (List.mem_append.1 hc).elim (hs c) (ht c)

theorem unbroken_ofList {cs : List Char} (h : ∀ c ∈ cs, c.isDigit = true ∨ c ∈ ['.', 'e', '-']) : Unbroken (.ofList cs) := by
  intro c hc
  rw [String.toList_ofList] at hc
  obtain hdigit | hmark := h c hc
  · constructor <;> rintro rfl <;> cases hdigit
  · constructor <;> rintro rfl <;> revert hmark <;> decide

theorem isDigit_or_mark_of_toString {z : Int} : ∀ c ∈ (toString z).toList, c.isDigit = true ∨ c ∈ ['.', 'e', '-'] := by
  intro c hc
  obtain ⟨n, hz | hz⟩ := C.toList_toString_int z
  · rw [hz] at hc
    exact .inl (C.isDigit_of_mem_digits c hc)
  · rw [hz] at hc
    obtain rfl | hc := List.mem_cons.1 hc
    · exact .inr (by decide)
    · exact .inl (C.isDigit_of_mem_digits c hc)

theorem toString_int_inj {z w : Int} (h : toString z = toString w) : z = w := by
  have hnat : ∀ {m n : Nat}, Nat.toDigits 10 m = Nat.toDigits 10 n → m = n := by
    intro m n hmn
    rw [← Nat.ofDigitChars_ten_toDigits (n := m), hmn, Nat.ofDigitChars_ten_toDigits]
  -- a number with a sign is not one without, since a digit is no sign
  have hsign : ∀ {m : Nat} {cs : List Char}, Nat.toDigits 10 m ≠ '-' :: cs := by
    intro m cs hm
    have hdigit := C.isDigit_of_mem_digits '-' (hm ▸ List.mem_cons_self)
    cases hdigit
  have hneg : ∀ n : Nat, (toString (Int.negSucc n)).toList = '-' :: Nat.toDigits 10 (n + 1) := by
    intro n
    change ("-" ++ (n + 1).repr).toList = _
    rw [String.toList_append, Nat.toList_repr]
    rfl
  have hpos : ∀ n : Nat, (toString (Int.ofNat n)).toList = Nat.toDigits 10 n := fun n => Nat.toList_repr
  have hlist : (toString z).toList = (toString w).toList := by rw [h]
  cases z with
  | ofNat m =>
    cases w with
    | ofNat n =>
      rw [hpos, hpos] at hlist
      exact congrArg Int.ofNat (hnat hlist)
    | negSucc n =>
      rw [hpos, hneg] at hlist
      exact absurd hlist hsign
  | negSucc m =>
    cases w with
    | ofNat n =>
      rw [hpos, hneg] at hlist
      exact absurd hlist.symm hsign
    | negSucc n =>
      rw [hneg, hneg] at hlist
      have hsucc := hnat (List.cons.inj hlist).2
      exact congrArg Int.negSucc (Nat.succ.inj hsucc)

theorem unbroken_toString (z : Int) : Unbroken (toString z) := by
  rw [← String.ofList_toList (s := toString z)]
  exact unbroken_ofList isDigit_or_mark_of_toString

namespace Decimal

theorem mem_positional {digits : List Char} {exponent : Int} {c : Char} (h : c ∈ positional digits exponent) :
    c ∈ digits ∨ c = '0' ∨ c = '.' := by
  unfold positional at h
  dsimp only at h
  split at h
  · simp only [List.mem_append, List.mem_replicate, List.mem_cons, List.not_mem_nil, or_false] at h
    grind
  · split at h
    · simp only [List.mem_append, List.mem_cons] at h
      obtain hc | rfl | hc := h
      · exact .inl (List.mem_of_mem_take hc)
      · exact .inr (.inr rfl)
      · exact .inl (List.mem_of_mem_drop hc)
    · simp only [List.mem_append, List.mem_replicate, List.mem_cons] at h
      grind

theorem mem_scientific {digits : List Char} {leading : Int} {c : Char} (h : c ∈ scientific digits leading) :
    c ∈ digits ∨ c = '.' ∨ c = 'e' ∨ c ∈ (toString leading).toList := by
  unfold scientific at h
  simp only [List.mem_append, List.mem_cons] at h
  obtain (hc | hc) | rfl | hc := h
  · exact .inl (List.mem_of_mem_take hc)
  · split at hc
    · exact absurd hc List.not_mem_nil
    · obtain rfl | hc := List.mem_cons.1 hc
      · exact .inr (.inl rfl)
      · exact .inl (List.mem_of_mem_drop hc)
  · exact .inr (.inr (.inl rfl))
  · exact .inr (.inr (.inr hc))

/-- Decimals are written with digits, a point, a mark for the exponent and its sign. -/
theorem unbroken_toText (d : Decimal) : Unbroken d.toText := by
  have hdigits := C.isDigit_of_mem_digits (n := d.digits)
  unfold toText
  dsimp only
  split
  · refine unbroken_ofList fun c hc => ?_
    obtain hc | rfl | rfl := mem_positional hc
    · exact .inl (hdigits c hc)
    · exact .inl rfl
    · exact .inr (by decide)
  · refine unbroken_ofList fun c hc => ?_
    obtain hc | rfl | rfl | hc := mem_scientific hc
    · exact .inl (hdigits c hc)
    · exact .inr (by decide)
    · exact .inr (by decide)
    · exact isDigit_or_mark_of_toString c hc

end Decimal

theorem unbroken_literal {s : String} (h : ' ' ∉ s.toList ∧ '\n' ∉ s.toList) : Unbroken s := by
  intro c hc
  exact ⟨fun heq => h.1 (heq ▸ hc), fun heq => h.2 (heq ▸ hc)⟩

theorem Binary64.unbroken_toText (x : Binary64) : Unbroken x.toText := by
  have hmagnitude : Unbroken x.magnitudeText := by
    unfold magnitudeText
    split
    · exact unbroken_literal (by decide)
    · split
      · exact unbroken_literal (by decide)
      · exact x.shortest.unbroken_toText
  unfold toText
  split
  · exact unbroken_literal (by decide)
  · split
    · exact unbroken_append (unbroken_literal (by decide)) hmagnitude
    · exact hmagnitude

theorem BinOp.unbroken_symbol (op : BinOp) : Unbroken op.symbol := by
  apply unbroken_literal
  cases op <;> decide

theorem Ty.unbroken_keyword (t : Ty) : Unbroken t.keyword := by
  apply unbroken_literal
  cases t <;> decide

/-! ### Static types -/

/-- What a static type adds to a line. -/
def typeSuffix : Option Ty → String
  | some t => " : " ++ t.keyword
  | none => ""

theorem toList_typeSuffix_some (t : Ty) : (typeSuffix (some t)).toList = ' ' :: ':' :: ' ' :: t.keyword.toList := by
  rw [typeSuffix, String.toList_append]
  rfl

/-- **The static type at the end of a line** can be told from what stands in front of it if that has no blank. -/
theorem eq_of_append_typeSuffix {p p' : List Char} {ty ty' : Option Ty} (hp : ' ' ∉ p) (hp' : ' ' ∉ p')
    (h : p ++ (typeSuffix ty).toList = p' ++ (typeSuffix ty').toList) : p = p' ∧ ty = ty' := by
  cases ty with
  | none =>
    cases ty' with
    | none => exact ⟨List.append_cancel_right h, rfl⟩
    | some t =>
      rw [toList_typeSuffix_some, typeSuffix, String.toList_empty, List.append_nil] at h
      exact absurd (h ▸ List.mem_append_right _ List.mem_cons_self) hp
  | some t =>
    cases ty' with
    | none =>
      rw [toList_typeSuffix_some, typeSuffix, String.toList_empty, List.append_nil] at h
      exact absurd (h ▸ List.mem_append_right _ List.mem_cons_self) hp'
    | some t' =>
      rw [toList_typeSuffix_some, toList_typeSuffix_some] at h
      obtain ⟨rfl, hrest⟩ := Text.eq_of_append_cons_eq hp hp' h
      have hkeyword := String.toList_inj.1 (List.cons.inj (List.cons.inj hrest).2).2
      exact ⟨rfl, congrArg some (Ty.keyword_injective hkeyword)⟩

theorem typeSuffix_inj {ty ty' : Option Ty} (h : (typeSuffix ty).toList = (typeSuffix ty').toList) : ty = ty' :=
  (eq_of_append_typeSuffix List.not_mem_nil List.not_mem_nil (congrArg ([] ++ ·) h)).2

/-- What is written behind a colon, and the type behind it. -/
theorem eq_of_contents_eq {p p' : String} {ty ty' : Option Ty} (hp : Unbroken p) (hp' : Unbroken p')
    (h : (": " ++ p ++ typeSuffix ty).toList = (": " ++ p' ++ typeSuffix ty').toList) : p = p' ∧ ty = ty' := by
  rw [String.append_assoc, String.append_assoc, String.toList_append, String.toList_append, String.toList_append,
    String.toList_append] at h
  obtain ⟨htext, hty⟩ := eq_of_append_typeSuffix hp.blank_notMem hp'.blank_notMem (List.append_cancel_left h)
  exact ⟨String.toList_inj.1 htext, hty⟩

/-- A declaration has a blank between its type and its name, which has none. -/
theorem eq_of_declaration_eq {v w : Variable} {ty ty' : Option Ty} (hv : Unbroken v.name) (hw : Unbroken w.name)
    (h : (": " ++ (v.ty.keyword ++ " " ++ v.name) ++ typeSuffix ty).toList =
      (": " ++ (w.ty.keyword ++ " " ++ w.name) ++ typeSuffix ty').toList) : v = w ∧ ty = ty' := by
  have hrest : v.ty.keyword.toList ++ ' ' :: (v.name.toList ++ (typeSuffix ty).toList) =
      w.ty.keyword.toList ++ ' ' :: (w.name.toList ++ (typeSuffix ty').toList) := by
    simpa using h
  obtain ⟨hkeyword, htail⟩ :=
    Text.eq_of_append_cons_eq v.ty.unbroken_keyword.blank_notMem w.ty.unbroken_keyword.blank_notMem hrest
  obtain ⟨hname, hty⟩ := eq_of_append_typeSuffix hv.blank_notMem hw.blank_notMem htail
  obtain ⟨x, t⟩ := v
  obtain ⟨y, u⟩ := w
  obtain rfl : x = y := String.toList_inj.1 hname
  obtain rfl : t = u := Ty.keyword_injective (String.toList_inj.1 hkeyword)
  exact ⟨rfl, hty⟩

/-! ### Kinds -/

/-- The kinds of constructs. -/
inductive Kind where
  | int
  | float
  | text
  | var
  | binary
  | assign
  | call
  | print
  | read
  | declare
  | branch
  | loop
  | count
  | block
  | function
  | ret
  deriving DecidableEq, Repr, Inhabited

namespace Kind

/-- The word for a kind at the beginning of a line. -/
def word : Kind → String
  | int => "Int"
  | float => "Float"
  | text => "Text"
  | var => "Var"
  | binary => "Binary"
  | assign => "Assign"
  | call => "Call"
  | print => "Print"
  | read => "Read"
  | declare => "Declare"
  | branch => "If"
  | loop => "While"
  | count => "For"
  | block => "Block"
  | function => "FunctionDef"
  | ret => "Return"

/-- Every kind, once. -/
def all : List Kind :=
  [int, float, text, var, binary, assign, call, print, read, declare, branch, loop, count, block, function, ret]

/-- The kind a word stands for. -/
def ofWord? (w : String) : Option Kind := all.find? (·.word == w)

theorem ofWord?_word (k : Kind) : ofWord? k.word = some k := by cases k <;> rfl

theorem word_injective {k k' : Kind} (h : k.word = k'.word) : k = k' := by
  have hfind := ofWord?_word k
  rw [h, ofWord?_word k'] at hfind
  exact (Option.some.inj hfind).symm

theorem isAlpha_of_mem_word (k : Kind) : ∀ c ∈ k.word.toList, c.isAlpha = true := by
  apply List.all_eq_true.1
  cases k <;> rfl

theorem toList_word_ne_nil (k : Kind) : k.word.toList ≠ [] := by
  cases k <;> decide

end Kind

namespace Construct

variable {α : Type}

/-- The kind of a construct. -/
def kind : Construct α → Kind
  | int _ => .int
  | float _ => .float
  | text _ => .text
  | var _ => .var
  | binary .. => .binary
  | assign .. => .assign
  | call .. => .call
  | print _ => .print
  | read _ => .read
  | declare _ => .declare
  | branch .. => .branch
  | loop .. => .loop
  | count .. => .count
  | block _ => .block
  | function .. => .function
  | ret _ => .ret

/-- What a construct holds besides its parts, as it is written behind the word for its kind. -/
def own : Construct α → String
  | int v => ": " ++ toString v.toInt
  | float x => ": " ++ x.toText
  | text s => ": " ++ Text.quoted s
  | var x | assign x _ | call x _ | read x | function x _ _ _ => ": " ++ x
  | binary op _ _ => ": " ++ op.symbol
  | declare v => ": " ++ (v.ty.keyword ++ " " ++ v.name)
  | print _ | branch .. | loop .. | count .. | block _ | ret _ => ""

/-- The names that a construct itself has. -/
def names : Construct α → List String
  | var x | assign x _ | call x _ | read x | function x _ _ _ => [x]
  | declare v => [v.name]
  | int _ | float _ | text _ | binary .. | print _ | branch .. | loop .. | count .. | block _ | ret _ => []

theorem label_eq (c : Construct α) : c.label = c.kind.word ++ c.own := by
  have hcolon : ∀ {s w p : String}, s = w ++ ": " → s ++ p = w ++ (": " ++ p) := by
    rintro _ w p rfl
    exact String.append_assoc
  cases c with
  | print | branch | loop | count | block | ret => rfl
  | declare v =>
    have hlabel : "Declare: " ++ v.ty.keyword ++ " " ++ v.name = "Declare: " ++ (v.ty.keyword ++ " " ++ v.name) := by
      simp only [String.append_assoc]
    exact hlabel.trans (hcolon rfl)
  | int | float | text | var | binary | assign | call | read | function => exact hcolon rfl

/-- What follows the word for the kind does not begin with a letter. -/
theorem takeWhile_own (c : Construct α) (ty : Option Ty) :
    (c.own ++ typeSuffix ty).toList.takeWhile Char.isAlpha = [] := by
  rw [String.toList_append]
  cases c with
  | print | branch | loop | count | block | ret =>
    cases ty with
    | none => rfl
    | some t =>
      rw [toList_typeSuffix_some]
      rfl
  | int | float | text | var | binary | assign | call | read | declare | function =>
    rw [own, String.toList_append]
    rfl

/-- What a construct holds is written on one line if its names are. -/
theorem newline_notMem_own (c : Construct α) (h : ∀ x ∈ c.names, Unbroken x) : '\n' ∉ c.own.toList := by
  have hpayload : ∀ p : String, '\n' ∉ p.toList → '\n' ∉ (": " ++ p).toList := by
    intro p hp
    rw [String.toList_append, List.mem_append, not_or]
    exact ⟨by decide, hp⟩
  cases c with
  | print | branch | loop | count | block | ret => exact List.not_mem_nil
  | int v => exact hpayload _ (unbroken_toString v.toInt).newline_notMem
  | float x => exact hpayload _ x.unbroken_toText.newline_notMem
  | text s => exact hpayload _ (Text.newline_notMem_quoted s)
  | binary op => exact hpayload _ op.unbroken_symbol.newline_notMem
  | var x | assign x | call x | read x | function x =>
    exact hpayload _ (h x (List.mem_singleton.2 rfl)).newline_notMem
  | declare v =>
    apply hpayload
    rw [String.toList_append, String.toList_append, List.mem_append, List.mem_append, not_or, not_or]
    exact ⟨⟨v.ty.unbroken_keyword.newline_notMem, by decide⟩, (h v.name (List.mem_singleton.2 rfl)).newline_notMem⟩

end Construct

namespace Node

/-- The line of a node without its indentation and its end. -/
def heading (n : Node) : String := n.construct.label ++ typeSuffix n.ty

theorem toList_heading (n : Node) :
    n.heading.toList = n.construct.kind.word.toList ++ (n.construct.own ++ typeSuffix n.ty).toList := by
  rw [heading, Construct.label_eq, String.append_assoc, String.toList_append]

/-- **The first letters of a heading** are the word for the kind. -/
theorem takeWhile_heading (n : Node) : n.heading.toList.takeWhile Char.isAlpha = n.construct.kind.word.toList := by
  rw [toList_heading, List.takeWhile_append_of_pos n.construct.kind.isAlpha_of_mem_word, Construct.takeWhile_own,
    List.append_nil]

/-- Headings tell kinds apart, and what stands behind the kind. -/
theorem kind_eq_of_heading_eq {m n : Node} (h : m.heading = n.heading) :
    m.construct.kind = n.construct.kind ∧
      (m.construct.own ++ typeSuffix m.ty).toList = (n.construct.own ++ typeSuffix n.ty).toList := by
  have hword : m.construct.kind = n.construct.kind := by
    apply Kind.word_injective
    rw [← String.toList_inj, ← takeWhile_heading, ← takeWhile_heading, h]
  refine ⟨hword, ?_⟩
  have hlist : m.heading.toList = n.heading.toList := by rw [h]
  rw [toList_heading, toList_heading, hword] at hlist
  exact List.append_cancel_left hlist

/-- A heading does not begin with a blank. -/
theorem exists_cons_heading (n : Node) : ∃ c rest, n.heading.toList = c :: rest ∧ c ≠ ' ' := by
  obtain ⟨c, cs, hword⟩ := List.exists_cons_of_ne_nil n.construct.kind.toList_word_ne_nil
  refine ⟨c, cs ++ (n.construct.own ++ typeSuffix n.ty).toList, ?_, ?_⟩
  · rw [toList_heading, hword, List.cons_append]
  · rintro rfl
    have hblank := n.construct.kind.isAlpha_of_mem_word ' ' (hword ▸ List.mem_cons_self)
    cases hblank

/-- A heading stands on one line. -/
theorem newline_notMem_heading {n : Node} (h : ∀ x ∈ n.construct.names, Unbroken x) : '\n' ∉ n.heading.toList := by
  rw [toList_heading, String.toList_append, List.mem_append, List.mem_append, not_or, not_or]
  refine ⟨fun hword => ?_, n.construct.newline_notMem_own h, ?_⟩
  · have hletter := n.construct.kind.isAlpha_of_mem_word '\n' hword
    cases hletter
  · cases n.ty with
    | none => exact List.not_mem_nil
    | some t =>
      rw [typeSuffix, String.toList_append, List.mem_append, not_or]
      exact ⟨by decide, t.unbroken_keyword.newline_notMem⟩

end Node

end ImpC
