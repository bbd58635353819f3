import ImpC.Compile

/-!
# A sample program

A small program that declares variables, defines and calls a function, and prints an integer, a float and a text.
`Sample.source` is its text and `Sample.program` builds it in the order of that text. `Sample.outcome` compiles it and says what
there is to see.
-/

namespace ImpC.Sample

/-- The text of the sample program. -/
def source : String :=
  "int a;\n" ++
  "float ratio;\n" ++
  "string greeting;\n" ++
  "function scale(int n, float k) \x7b\n" ++
  "    float r;\n" ++
  "    r = n * k;\n" ++
  "    return r / 2;\n" ++
  "\x7d\n" ++
  "a = 2 + 3;\n" ++
  "print a;\n" ++
  "ratio = scale(a, 1.5);\n" ++
  "print ratio;\n" ++
  "greeting = \"hello, \" + \"world\";\n" ++
  "print greeting;\n"

/-- The number 1.5. -/
def oneAndAHalf : Binary64 := ⟨0x3ff8000000000000⟩

/-- The function `scale`. -/
def scale : Draft :=
  .construct (.function "scale"
    [.construct (.declare ⟨"n", .int⟩), .construct (.declare ⟨"k", .float⟩)]
    (.construct (.block
      [.construct (.declare ⟨"r", .float⟩),
       .construct (.assign "r" (.binary "*" (.construct (.var "n")) (.construct (.var "k"))))]))
    (.construct (.ret (.binary "/" (.construct (.var "r")) (.construct (.int 2))))))

/-- The sample program, as it is written. -/
def draft : Draft :=
  .construct (.block
    [.construct (.declare ⟨"a", .int⟩),
     .construct (.declare ⟨"ratio", .float⟩),
     .construct (.declare ⟨"greeting", .text⟩),
     scale,
     .construct (.assign "a" (.binary "+" (.construct (.int 2)) (.construct (.int 3)))),
     .construct (.print (.construct (.var "a"))),
     .construct (.assign "ratio"
       (.construct (.call "scale" [.construct (.var "a"), .construct (.float oneAndAHalf)]))),
     .construct (.print (.construct (.var "ratio"))),
     .construct (.assign "greeting"
       (.binary "+" (.construct (.text "hello, ")) (.construct (.text "world")))),
     .construct (.print (.construct (.var "greeting")))])

/-- What a run of the compiler shows, and the code it ends with. -/
structure Outcome where
  output : String
  diagnostics : String
  code : Nat
  deriving DecidableEq, Repr, Inhabited

/-- Compiles the sample program: the program text and then the emitted text, or a report of the error. -/
def outcome : Outcome :=
  let intro := "Compiling:\n" ++ source ++ "\n"
  match compile {} draft.build with
  | .ok text => ⟨intro ++ "Successfully generated C:\n" ++ text ++ "\n", "", 0⟩
  | .error e => ⟨intro, (e.report source "<demo>").colouredText, 1⟩

end ImpC.Sample
