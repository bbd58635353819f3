import ImpC.Proofs.C.Code
import ImpC.Proofs.C.Expr
import ImpC.Proofs.C.Names

/-!
# Expressions in the text of code

The expressions in a piece of code are written out in its text, each of them in one piece (`Function.occurs_of_mem_subs`),
and they have names in their places if the code has (`Function.isNamed_of_mem_subs`). Both go from an expression to its
parts: what passes from every expression to its parts is had by all expressions inside of it (`Expr.forall_mem_subs`).
-/

namespace ImpC.C

/-- The text `a` stands somewhere in the text `b`. -/
def Occurs (a b : String) : Prop := ∃ front back, b = front ++ a ++ back

section Occurs

variable {a b c : String}

theorem Occurs.refl (a : String) : Occurs a a := ⟨"", "", by simp⟩

theorem Occurs.trans (h : Occurs a b) (h' : Occurs b c) : Occurs a c := by
  obtain ⟨front, back, rfl⟩ := h
  obtain ⟨front', back', rfl⟩ := h'
  exact ⟨front' ++ front, back ++ back', by simp only [String.append_assoc]⟩

theorem Occurs.append_right (h : Occurs a b) (c : String) : Occurs a (b ++ c) := h.trans ⟨"", c, by simp⟩

theorem Occurs.append_left (h : Occurs a b) (c : String) : Occurs a (c ++ b) := h.trans ⟨c, "", by simp⟩

theorem occurs_intercalate {texts : List String} (h : a ∈ texts) : Occurs a (b.intercalate texts) := by
  induction texts with
  | nil => exact absurd h List.not_mem_nil
  | cons d texts ih =>
    cases texts with
    | nil =>
      obtain rfl := List.mem_singleton.1 h
      exact .refl a
    | cons e texts =>
      rw [String.intercalate_cons_cons]
      obtain rfl | h := List.mem_cons.1 h
      · exact ((Occurs.refl a).append_right b).append_right _
      · exact (ih h).append_left _

theorem occurs_join {texts : List String} (h : a ∈ texts) : Occurs a (String.join texts) := by
  induction texts with
  | nil => exact absurd h List.not_mem_nil
  | cons d texts ih =>
    rw [String.join_cons]
    obtain rfl | h := List.mem_cons.1 h
    · exact (Occurs.refl a).append_right _
    · exact (ih h).append_left d

end Occurs

/-! ### Expressions -/

namespace Expr

/-- The immediate parts of an expression. -/
def parts : Expr → List Expr
  | binary _ l r => [l, r]
  | assign _ e | first e | toLong e => [e]
  | call _ args => args
  | name _ | long _ | double _ | text _ | size _ | nul | buffer _ | sizeOf _ | room _ | addressOf _ => []

mutual

/-- What passes from every expression to its parts passes to all expressions in it. -/
theorem forall_mem_subs {P : Expr → Prop} (hP : ∀ e, P e → ∀ d ∈ e.parts, P d) :
    (e : Expr) → P e → ∀ d ∈ e.subs, P d
  | name _, h | long _, h | double _, h | text _, h | size _, h | nul, h | buffer _, h | sizeOf _, h | room _, h
  | addressOf _, h => List.forall_mem_singleton.2 h
  | binary op l r, h => by
    have hl : P l := hP _ h l (by simp [parts])
    have hr : P r := hP _ h r (by simp [parts])
    exact List.forall_mem_cons.2 ⟨h, List.forall_mem_append.2 ⟨forall_mem_subs hP l hl, forall_mem_subs hP r hr⟩⟩
  | assign n e, h | first e, h | toLong e, h =>
    List.forall_mem_cons.2 ⟨h, forall_mem_subs hP e (hP _ h e (List.mem_singleton.2 rfl))⟩
  | call f args, h => List.forall_mem_cons.2 ⟨h, forall_mem_subsAll hP args (hP _ h)⟩

theorem forall_mem_subsAll {P : Expr → Prop} (hP : ∀ e, P e → ∀ d ∈ e.parts, P d) :
    (es : List Expr) → (∀ e ∈ es, P e) → ∀ d ∈ subsAll es, P d
  | [], _ => nofun
  | e :: es, h => by
    obtain ⟨he, hes⟩ := List.forall_mem_cons.1 h
    exact List.forall_mem_append.2 ⟨forall_mem_subs hP e he, forall_mem_subsAll hP es hes⟩

end

variable {d e : Expr}

theorem isNamed_of_mem_subs (h : e.isNamed = true) : ∀ d ∈ e.subs, d.isNamed = true := by
  refine forall_mem_subs (P := fun e => e.isNamed = true) (fun e h d hd => ?_) e h
  cases e with
  | binary op l r =>
    obtain ⟨hl, hr⟩ := Bool.and_eq_true_iff.1 h
    obtain rfl | hd := List.mem_cons.1 hd
    · exact hl
    · obtain rfl := List.mem_singleton.1 hd
      exact hr
  | assign n e =>
    obtain rfl := List.mem_singleton.1 hd
    exact (Bool.and_eq_true_iff.1 h).2
  | call f args =>
    have hargs : areNamed args = true := (Bool.and_eq_true_iff.1 h).2
    rw [areNamed_eq_all] at hargs
    exact List.all_eq_true.1 hargs d hd
  | first | toLong =>
    obtain rfl := List.mem_singleton.1 hd
    exact h
  | name | long | double | text | size | nul | buffer | sizeOf | room | addressOf => exact absurd hd List.not_mem_nil

theorem occurs_operand (e : Expr) : Occurs e.toText (e.parenthesize e.toText) := by
  unfold parenthesize
  split
  · exact ((Occurs.refl _).append_left "(").append_right ")"
  · exact .refl _

theorem occurs_of_mem_parts (h : d ∈ e.parts) : Occurs d.toText e.toText := by
  cases e with
  | binary op l r =>
    obtain rfl | h := List.mem_cons.1 h
    · exact ((((occurs_operand d).append_right _).append_right _).append_right _).append_right _
    · obtain rfl := List.mem_singleton.1 h
      exact (occurs_operand d).append_left _
  | assign n e =>
    obtain rfl := List.mem_singleton.1 h
    exact (Occurs.refl _).append_left _
  | call f args =>
    have htext : d.toText ∈ texts args := by
      rw [texts_eq_map]
      exact List.mem_map_of_mem h
    exact ((occurs_intercalate htext).append_left _).append_right _
  | first e =>
    obtain rfl := List.mem_singleton.1 h
    exact (occurs_operand d).append_right _
  | toLong e =>
    obtain rfl := List.mem_singleton.1 h
    exact (occurs_operand d).append_left _
  | name | long | double | text | size | nul | buffer | sizeOf | room | addressOf => exact absurd h List.not_mem_nil

/-- **The expressions in an expression are written out in its text.** -/
theorem occurs_of_mem_subs {b : String} (h : Occurs e.toText b) : ∀ d ∈ e.subs, Occurs d.toText b :=
  forall_mem_subs (P := fun e => Occurs e.toText b) (fun _ h _ hd => (occurs_of_mem_parts hd).trans h) e h

end Expr

/-! ### Statements and functions -/

namespace Stmt

mutual

theorem isNamed_of_mem_subs : (s : Stmt) → s.isNamed = true → ∀ e ∈ s.subs, e.isNamed = true
  | expr e, h | ret e, h => e.isNamed_of_mem_subs h
  | declare _ _ (some e), h => e.isNamed_of_mem_subs (Bool.and_eq_true_iff.1 h).2
  | buffer .., _ | declare _ _ none, _ => nofun
  | store n i e, h => by
    obtain ⟨-, h⟩ := Bool.and_eq_true_iff.1 h
    obtain ⟨hi, he⟩ := Bool.and_eq_true_iff.1 h
    exact List.forall_mem_append.2 ⟨i.isNamed_of_mem_subs hi, e.isNamed_of_mem_subs he⟩
  | branch c a none, h | loop c a, h => by
    obtain ⟨hc, ha⟩ := Bool.and_eq_true_iff.1 h
    exact List.forall_mem_append.2 ⟨c.isNamed_of_mem_subs hc, isNamed_of_mem_subsAll a ha⟩
  | branch c a (some b), h => by
    obtain ⟨hc, h⟩ := Bool.and_eq_true_iff.1 h
    obtain ⟨ha, hb⟩ := Bool.and_eq_true_iff.1 h
    refine List.forall_mem_append.2 ⟨?_, isNamed_of_mem_subsAll b hb⟩
    exact List.forall_mem_append.2 ⟨c.isNamed_of_mem_subs hc, isNamed_of_mem_subsAll a ha⟩
  | block b, h => isNamed_of_mem_subsAll b h

theorem isNamed_of_mem_subsAll : (ss : List Stmt) → areNamed ss = true → ∀ e ∈ subsAll ss, e.isNamed = true
  | [], _ => nofun
  | s :: ss, h => by
    obtain ⟨hs, hss⟩ := Bool.and_eq_true_iff.1 h
    exact List.forall_mem_append.2 ⟨isNamed_of_mem_subs s hs, isNamed_of_mem_subsAll ss hss⟩

end

/-- The expression is written out in one of the lines. -/
def OccursIn (ls : List Line) (e : Expr) : Prop := ∃ l ∈ ls, Occurs e.toText l.text

variable {ls : List Line} {e : Expr}

theorem OccursIn.append_left (h : OccursIn ls e) (ls' : List Line) : OccursIn (ls' ++ ls) e := by
  obtain ⟨l, hl, hoccurs⟩ := h
  exact ⟨l, List.mem_append_right ls' hl, hoccurs⟩

theorem OccursIn.append_right (h : OccursIn ls e) (ls' : List Line) : OccursIn (ls ++ ls') e := by
  obtain ⟨l, hl, hoccurs⟩ := h
  exact ⟨l, List.mem_append_left ls' hl, hoccurs⟩

/-- The expressions in one that is written between other texts on the first line. -/
theorem occursIn_first {depth : Nat} (front back : String) :
    ∀ d ∈ e.subs, OccursIn (⟨depth, front ++ e.toText ++ back⟩ :: ls) d := by
  intro d hd
  have hline : Occurs e.toText (front ++ e.toText ++ back) := ⟨front, back, rfl⟩
  exact ⟨_, List.mem_cons_self, Expr.occurs_of_mem_subs hline d hd⟩

mutual

/-- **The expressions in a statement are written out in its lines.** -/
theorem occursIn_lines (depth : Nat) : (s : Stmt) → ∀ e ∈ s.subs, OccursIn (s.lines depth) e
  | expr e => fun d hd => by
    have hfirst : OccursIn [⟨depth, "" ++ e.toText ++ ";"⟩] d := occursIn_first "" ";" d hd
    rwa [String.empty_append] at hfirst
  | ret e => occursIn_first "return " ";"
  | buffer .. | declare _ _ none => nofun
  | declare ty n (some e) => occursIn_first (ty.declare n.toText ++ " = ") ";"
  | store n i e => by
    refine List.forall_mem_append.2 ⟨?_, occursIn_first _ ";"⟩
    have hindex : n.toText ++ "[" ++ i.toText ++ "] = " ++ e.toText ++ ";" =
        n.toText ++ "[" ++ i.toText ++ ("] = " ++ e.toText ++ ";") := by
      simp only [String.append_assoc]
    rw [lines, hindex]
    exact occursIn_first _ _
  | branch c a none => by
    refine List.forall_mem_append.2 ⟨occursIn_first "if (" _, fun e he => ?_⟩
    exact ((occursIn_linesAll (depth + 1) a e he).append_left [_]).append_right _
  | branch c a (some b) => by
    refine List.forall_mem_append.2 ⟨List.forall_mem_append.2 ⟨occursIn_first "if (" _, fun e he => ?_⟩, fun e he => ?_⟩
    · exact (((occursIn_linesAll (depth + 1) a e he).append_left [_]).append_right _).append_right _
    · exact (((occursIn_linesAll (depth + 1) b e he).append_left [_]).append_left _).append_right _
  | loop c b => by
    refine List.forall_mem_append.2 ⟨occursIn_first "while (" _, fun e he => ?_⟩
    exact ((occursIn_linesAll (depth + 1) b e he).append_left [_]).append_right _
  | block b => fun e he => ((occursIn_linesAll (depth + 1) b e he).append_left [_]).append_right _

theorem occursIn_linesAll (depth : Nat) : (ss : List Stmt) → ∀ e ∈ subsAll ss, OccursIn (linesAll depth ss) e
  | [] => nofun
  | s :: ss => by
    refine List.forall_mem_append.2 ⟨fun e he => ?_, fun e he => ?_⟩
    · exact (occursIn_lines depth s e he).append_right _
    · exact (occursIn_linesAll depth ss e he).append_left _

end

end Stmt

namespace Function

variable {f : Function} {e : Expr}

theorem isNamed_of_mem_subs (h : f.isNamed = true) (he : e ∈ f.subs) : e.isNamed = true := by
  obtain ⟨-, h⟩ := Bool.and_eq_true_iff.1 h
  exact Stmt.isNamed_of_mem_subsAll f.body (Bool.and_eq_true_iff.1 h).2 e he

/-- **The expressions in a function are written out in its text.** -/
theorem occurs_of_mem_subs (width : Nat) (he : e ∈ f.subs) : Occurs e.toText (f.toText width) := by
  obtain ⟨l, hl, hline⟩ := Stmt.occursIn_linesAll 1 f.body e he
  have hmem : l ∈ f.lines := List.mem_append_left _ (List.mem_cons_of_mem _ hl)
  have hwritten : Occurs e.toText (l.indented width ++ "\n") := (hline.append_left _).append_right _
  exact hwritten.trans (occurs_join (List.mem_map_of_mem hmem))

end Function

end ImpC.C
