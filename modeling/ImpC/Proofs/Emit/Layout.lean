import ImpC.Proofs.C.Layout
import ImpC.Proofs.Emit.Names

/-!
# Emitted programs are laid out

The functions of a program and its `main` are laid out as their statements are nested (`program_laidOut`): their braces are
balanced, a line is indented by the blocks around it, and every `else` goes on with the `if` of its own branch. Names that
are identifiers of C are all that this asks of a program. Texts may hold braces and line feeds, since those are spelled out in
a literal.
-/

namespace ImpC.Emit

/-- **The functions of an emitted program are laid out.** The text of the program ends with the texts of its functions and
of `main`. Each of these is divided at its line feeds, and the lines are read by what they start and end with. This succeeds,
so every line closes a block, goes on with the alternative of an `if` that has none yet, opens a block, or ends in a semicolon,
and stands as many levels deep as there are blocks around it. Between two lines of a function a block is always open. The
blocks that are read are those of the statements. -/
theorem program_laidOut {o : EmitOptions} {env : Env} {root : Node} {text : String}
    (h : programText o env root = .ok text) (hnames : env.Identifiers root) :
    ∃ p, program o env root = .ok p ∧
      (∃ head, text = head ++ String.join (p.functions.map (·.toText o.indentWidth ++ "\n")) ++
        p.main.toText o.indentWidth) ∧
      ∀ c ∈ p.functions ++ [p.main], C.LaidOut o.indentWidth (c.toText o.indentWidth) c.layout := by
  obtain ⟨p, hp, htext⟩ := bind_eq_ok_iff.1 h
  obtain ⟨hfunctions, hmain⟩ := isNamed_program hp hnames
  refine ⟨p, hp, ⟨_, (Except.ok.inj htext).symm⟩, ?_⟩
  intro c hc
  rcases List.mem_append.1 hc with hc | hc
  · exact C.Function.laidOut _ (hfunctions c hc)
  · rw [List.mem_singleton.1 hc]
    exact C.Function.laidOut _ hmain

/-- A function that gives the text it is called with. -/
def echoing : Function :=
  ⟨"echo", [⟨"t", .text⟩], .text, ⟨.block [], none⟩, ⟨.ret ⟨.var "t", some .text⟩, some .text⟩⟩

/-- A branch with an alternative in a loop. A text that is printed looks like the lines between the two. -/
def dangling : Node :=
  ⟨.loop ⟨.int 1, some .int⟩
    ⟨.branch ⟨.var "n", some .int⟩
      ⟨.block [⟨.branch ⟨.int 0, some .int⟩ ⟨.block [], none⟩ none, none⟩,
        ⟨.print ⟨.text ";\n\x7d else \x7b\n", some .text⟩, some .text⟩], none⟩
      (some ⟨.assign "n" ⟨.int 0, some .int⟩, some .int⟩), none⟩, none⟩

/-- The `else` is that of the outer branch, and the text that is printed is part of a line. -/
theorem program_laidOut_dangling :
    ∃ p text, program {} (Env.empty.registerFunction echoing) dangling = .ok p ∧
      programText {} (Env.empty.registerFunction echoing) dangling = .ok text ∧
      p.main.layout = .block "int main(void) \x7b".toList
        [.block "while (1LL) \x7b".toList
          [.choice "if (v_n) \x7b".toList
            [.block "if (0LL) \x7b".toList [],
              .line "printf(\"%s\\n\", \";\\n\x7d else \x7b\\n\");".toList]
            [.line "v_n = 0LL;".toList]],
          .line "return 0;".toList] ∧
      ∀ c ∈ p.functions ++ [p.main], C.LaidOut 4 (c.toText 4) c.layout := by
  have hfirsts : (Env.empty.registerFunction echoing).funs.firsts = [echoing] := rfl
  have hnames : (Env.empty.registerFunction echoing).Identifiers dangling := by
    constructor
    · rw [hfirsts]
      intro g hg
      cases List.mem_singleton.1 hg
      decide
    · intro n hn
      rw [Env.emittedTrees, hfirsts] at hn
      have hwords : C.isIdentifier "t" = true ∧ C.isIdentifier "n" = true := by decide
      revert n
      simp [Node.UsesIdentifiers, Node.everywhere_iff, Construct.parts, Node.usedName?, dangling, echoing, hwords]
  obtain ⟨q, hq⟩ : ∃ q, program {} (Env.empty.registerFunction echoing) dangling = .ok q := ⟨_, rfl⟩
  have htext : programText {} (Env.empty.registerFunction echoing) dangling = .ok (q.toText 4) := by
    rw [programText, hq]
    rfl
  obtain ⟨p, hp, -, hlaid⟩ := program_laidOut htext hnames
  refine ⟨p, _, hp, htext, ?_, hlaid⟩
  cases hp
  rfl

end ImpC.Emit
