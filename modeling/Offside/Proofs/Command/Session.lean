import Offside.Proofs.Command.FileMode
import Offside.Proofs.Scan.Reports

/-!
# `Offside.Proofs.Command.Session`: a session has no memory

A session answers the lines of its input one after the other, and each answer depends on its own
line alone. So an input that is cut in front of a line gives what its two parts give, but for the
farewell between them (`session_append`), and what is written about one line can be told without the
others (`session_line`). A session that is given the text of a file answers the lines that the file
has (`session_toUTF8`).

A line that is a text and can be scanned is listed, just as file mode lists a file that has this one
line (`session_terminated`, `session_unterminated`). Any other is reported (`reply_cases`), in one
line and with nothing else (`oneLine_of_reported`, `reply_of_reported`). `sessions_have_no_memory`
puts this together.

A session and a file cut their lines in the same way, but a text at the end of an input has no line
feed, and then a carriage return at its end belongs to the line. So a file with the same text and a
line feed has another line there (`not_sessions_match_files_unterminated`), and one with the text
alone has the same.
-/

set_option autoImplicit false

namespace Offside.Command

open Offside.Text

/-! ### Outputs -/

@[simp] theorem Output.append_out (a b : Output) : (a ++ b).out = a.out ++ b.out := rfl

@[simp] theorem Output.append_err (a b : Output) : (a ++ b).err = a.err ++ b.err := rfl

theorem Output.append_assoc (a b c : Output) : a ++ b ++ c = a ++ (b ++ c) := by
  show Output.mk _ _ = Output.mk _ _
  simp only [append_out, append_err, String.append_assoc]

theorem Output.empty_append (a : Output) : ({} : Output) ++ a = a := by
  show Output.mk _ _ = a
  simp only [String.empty_append]

/-! ### Sessions -/

/-- What is written about some lines, each behind a prompt. -/
def replies (settings : Settings) : List (List UInt8) → Output
  | [] => {}
  | line :: lines => { out := prompt } ++ reply settings line ++ replies settings lines

theorem replies_append (settings : Settings) (xs ys : List (List UInt8)) :
    replies settings (xs ++ ys) = replies settings xs ++ replies settings ys := by
  induction xs with
  | nil => exact (Output.empty_append _).symm
  | cons line xs ih => rw [List.cons_append, replies, replies, ih, ← Output.append_assoc]

/-- A session answers its lines and ends with a last prompt and the farewell. -/
theorem session_eq (settings : Settings) (input : List UInt8) :
    session settings input =
      replies settings (inputLines input) ++ { out := prompt ++ farewell } := by
  unfold session
  induction inputLines input with
  | nil => exact (Output.empty_append _).symm
  | cons line lines ih => rw [List.foldr_cons, ih, replies, ← Output.append_assoc]

/-- An input that is cut in front of a line is answered in two parts. -/
theorem session_append (settings : Settings) {a : List UInt8}
    (h : a = [] ∨ a.getLast? = some 10) (b : List UInt8) :
    session settings (a ++ b) = replies settings (inputLines a) ++ session settings b := by
  have hlines : inputLines (a ++ b) = inputLines a ++ inputLines b := splitLines_append h b
  rw [session_eq, session_eq, hlines, replies_append, Output.append_assoc]

/-- A session that is given the text of a file answers the lines that the file has. -/
theorem session_toUTF8 (settings : Settings) (source : String) :
    session settings source.toUTF8.data.toList =
      replies settings ((linesOf source).map utf8) ++ { out := prompt ++ farewell } := by
  rw [session_eq, inputLines, splitLines_toUTF8]

/-- How a line ends: `tail` stands behind its bytes, `line` is what they are as a line, and `rest`
is left for further lines. A carriage return belongs to a line break only in front of a line feed,
so one that is the last byte of an input stays in its line. -/
inductive EndsLine (bytes : List UInt8) : (line tail rest : List UInt8) → Prop where
  /-- A line feed ends the line. -/
  | feed (rest : List UInt8) : EndsLine bytes (dropFinal 13 bytes) (10 :: rest) rest
  /-- The input ends, and with it a line that is not empty. -/
  | input (hne : bytes ≠ []) : EndsLine bytes bytes [] []

/-- What is written about the first line of an input. -/
theorem session_line (settings : Settings) {bytes line tail rest : List UInt8} (h : 10 ∉ bytes)
    (hend : EndsLine bytes line tail rest) :
    session settings (bytes ++ tail) =
      { out := prompt } ++ reply settings line ++ session settings rest := by
  have hlines : inputLines (bytes ++ tail) = line :: inputLines rest := by
    cases hend with
    | feed rest => exact splitLines_line h rest
    | input hne =>
      rw [List.append_nil]
      show splitLines 10 13 bytes = bytes :: splitLines 10 13 []
      rw [splitLines_of_not_mem hne h, splitLines_nil]
  rw [session_eq, session_eq, hlines, replies, Output.append_assoc]

/-! ### One line -/

/-- A text with a line feed behind it is one line. -/
theorem linesOf_line {t : String} (h : '\n' ∉ t.toList) :
    linesOf (t ++ "\n") = [dropFinal '\r' t.toList] := by
  have htext : (t ++ "\n").toList = t.toList ++ '\n' :: [] := by
    rw [String.toList_append]
    rfl
  rw [linesOf, htext, splitLines_line h, splitLines_nil]

/-- A text without a line feed is one line, unless it is empty. -/
theorem linesOf_unterminated {t : String} (hne : t ≠ "") (h : '\n' ∉ t.toList) :
    linesOf t = [t.toList] :=
  splitLines_of_not_mem (mt String.toList_eq_nil_iff.1 hne) h

/-- The tokens of a line are listed as file mode lists those of a file that has just this line. -/
theorem reply_out (settings : Settings) {files : Files} {source path : String} {line : List Char}
    (hline : linesOf source = [line]) (hfile : files path = .ok source.toUTF8) :
    (reply settings (utf8 line)).out = (runFile files settings path).output.out := by
  rw [runFile, tokenizeFile, Files.text_eq_ok_iff.mpr hfile, reply, fromUTF8?_utf8]
  simp only [Scan.scanSource, hline, String.toList_ofList]
  cases Scan.scan settings [line] <;> rfl

/-- What is reported about a line: that it is no text, or why it cannot be scanned. -/
inductive Reported (settings : Settings) : List UInt8 → String → Prop where
  /-- The line is no text. -/
  | unreadable {line : List UInt8} (h : ∀ t : String, line ≠ t.toUTF8.data.toList) :
      Reported settings line "Failed read line: stream did not contain valid UTF-8"
  /-- The line cannot be scanned. -/
  | unscannable {t : String} {e : Scan.Error} (h : Scan.scan settings [t.toList] = .error e) :
      Reported settings t.toUTF8.data.toList
        ("Failed tokenize line: Scan error at " ++ e.text)

/-- A line that is reported has no other answer. -/
theorem reply_of_reported {settings : Settings} {line : List UInt8} {report : String}
    (h : Reported settings line report) : reply settings line = { err := report ++ "\n" } := by
  cases h with
  | unreadable h =>
    rw [reply, fromUTF8?_eq_none_iff.mpr h]
    rfl
  | @unscannable t e h =>
    have htext : "Failed tokenize line: " ++ (Failure.scan e).text =
        "Failed tokenize line: Scan error at " ++ e.text := by
      show "Failed tokenize line: " ++ ("Scan error at " ++ e.text) = _
      rw [← String.append_assoc]
      rfl
    rw [reply, toList_toUTF8, fromUTF8?_utf8]
    simp only [String.toList_ofList, h, htext]

/-- Every line is listed or reported. -/
theorem reply_cases (settings : Settings) (line : List UInt8) :
    (∃ (t : String) (tokens : List Token), line = t.toUTF8.data.toList ∧
        Scan.scan settings [t.toList] = .ok tokens ∧
        reply settings line = { out := listing tokens }) ∨
      ∃ report, Reported settings line report := by
  cases htext : String.fromUTF8? ⟨line.toArray⟩ with
  | none => exact .inr ⟨_, .unreadable (fromUTF8?_eq_none_iff.mp htext)⟩
  | some t =>
    have hline : line = t.toUTF8.data.toList := by rw [← fromUTF8?_eq_some_iff.mp htext]
    cases hscan : Scan.scan settings [t.toList] with
    | error e =>
      rw [hline]
      exact .inr ⟨_, .unscannable hscan⟩
    | ok tokens =>
      refine .inl ⟨t, tokens, hline, hscan, ?_⟩
      rw [reply, htext]
      simp only [hscan]

theorem oneLine_of_reported {settings : Settings} {line : List UInt8} {report : String}
    (h : Reported settings line report) : OneLine report.toList ∧ report ≠ "" := by
  cases h with
  | unreadable h => decide
  | unscannable h =>
    have htext := Scan.oneLine_report h
    constructor
    · rw [String.toList_append, oneLine_append]
      exact ⟨by decide, htext⟩
    · intro hempty
      have hlist := congrArg String.toList hempty
      simp at hlist

/-! ### Sessions in the whole -/

theorem run_repl {files : Files} {config : Option String} {c : Configuration}
    (h : Loads files config c) (input : List UInt8) :
    run files input ⟨config, .repl⟩ = ⟨0, session c.settings input⟩ := by
  rw [run, configuration_eq_ok_iff.mpr h]

theorem run_file {files : Files} {config : Option String} {c : Configuration}
    (h : Loads files config c) (input : List UInt8) (path : String) :
    run files input ⟨config, .file path⟩ = runFile files c.settings path := by
  rw [run, configuration_eq_ok_iff.mpr h]

section

variable {settings : Settings} {files : Files} {t path : String}

/-- A text in front of a line feed is listed as file mode lists a file with the two. -/
theorem session_terminated (ht : '\n' ∉ t.toList) (hfile : files path = .ok (t ++ "\n").toUTF8)
    (rest : List UInt8) :
    (session settings (utf8 t.toList ++ 10 :: rest)).out =
      prompt ++ (runFile files settings path).output.out ++ (session settings rest).out := by
  have hfeed : 10 ∉ utf8 t.toList := mt feed_mem_utf8_iff.mp ht
  rw [session_line settings hfeed (.feed rest), dropFinal_utf8]
  simp only [Output.append_out, reply_out settings (linesOf_line ht) hfile]

/-- A text that the input ends with is listed as file mode lists a file with just this line. -/
theorem session_unterminated {source : String} (ht : '\n' ∉ t.toList) (hne : t ≠ "")
    (hline : linesOf source = [t.toList]) (hfile : files path = .ok source.toUTF8) :
    (session settings (utf8 t.toList)).out =
      prompt ++ (runFile files settings path).output.out ++ (session settings []).out := by
  have hfeed : 10 ∉ utf8 t.toList := mt feed_mem_utf8_iff.mp ht
  have hbytes : utf8 t.toList ≠ [] := utf8_ne_nil (mt String.toList_eq_nil_iff.1 hne)
  have hsession := session_line settings hfeed (.input hbytes)
  rw [List.append_nil] at hsession
  rw [hsession]
  simp only [Output.append_out, reply_out settings hline hfile]

end

/-- **A session has no memory.** Under a configuration that loads,

* an input that is cut in front of a line is answered by the answer to its first part, less the
  last prompt and the farewell, and the answer to its second part;
* what is printed about a line of text is what file mode prints about a file that holds the text and
  a line feed. The one exception is a text that the input ends with, without a line feed, and that
  ends in a carriage return: what is printed about any text that the input ends with is what file
  mode prints about a file that holds the text alone;
* a line that is no text or cannot be scanned is reported in one line, nothing is printed about it,
  and the session goes on.

What stands before the line in the last two is covered by the first. -/
theorem sessions_have_no_memory {files : Files} {config : Option String} {c : Configuration}
    (hloads : Loads files config c) :
    let repl (input : List UInt8) : Ending := run files input ⟨config, .repl⟩
    (∀ a b : List UInt8, a = [] ∨ a.getLast? = some 10 →
        ∃ front, (repl a).output.out = front ++ (prompt ++ farewell) ∧
          repl (a ++ b) = ⟨0, ⟨front ++ (repl b).output.out,
            (repl a).output.err ++ (repl b).output.err⟩⟩) ∧
      (∀ t : String, '\n' ∉ t.toList → ∀ (path : String) (input : List UInt8),
        let file : Ending := run files input ⟨config, .file path⟩
        (files path = .ok (t ++ "\n").toUTF8 →
          (∀ rest : List UInt8, (repl (t.toUTF8.data.toList ++ 10 :: rest)).output.out =
            prompt ++ file.output.out ++ (repl rest).output.out) ∧
          (t ≠ "" → t.toList.getLast? ≠ some '\r' → (repl t.toUTF8.data.toList).output.out =
            prompt ++ file.output.out ++ (repl []).output.out)) ∧
        (files path = .ok t.toUTF8 → t ≠ "" → (repl t.toUTF8.data.toList).output.out =
          prompt ++ file.output.out ++ (repl []).output.out)) ∧
      (∀ bytes line tail rest : List UInt8, 10 ∉ bytes → EndsLine bytes line tail rest →
        ∀ report, Reported c.settings line report →
          OneLine report.toList ∧ report ≠ "" ∧
            repl (bytes ++ tail) = ⟨0, ⟨prompt ++ (repl rest).output.out,
              report ++ "\n" ++ (repl rest).output.err⟩⟩) := by
  intro repl
  have hrepl (input : List UInt8) : repl input = ⟨0, session c.settings input⟩ :=
    run_repl hloads input
  refine ⟨?_, ?_, ?_⟩
  · intro a b hcut
    refine ⟨(replies c.settings (inputLines a)).out, ?_, ?_⟩
    · rw [hrepl, session_eq, Output.append_out]
    · rw [hrepl, hrepl, hrepl, session_append c.settings hcut b, session_eq c.settings a]
      simp only [Output.append_err, String.append_empty]
      rfl
  · intro t ht path input file
    have hrun : file = runFile files c.settings path := run_file hloads input path
    simp only [hrepl, hrun, toList_toUTF8]
    refine ⟨fun hfile => ⟨session_terminated ht hfile, fun hne hkept => ?_⟩, fun hfile hne => ?_⟩
    · have hline : linesOf (t ++ "\n") = [t.toList] := by
        rw [linesOf_line ht, dropFinal_of_ne hkept]
      exact session_unterminated ht hne hline hfile
    · exact session_unterminated ht hne (linesOf_unterminated hne ht) hfile
  · intro bytes line tail rest hfeed hend report hreport
    obtain ⟨hline, hne⟩ := oneLine_of_reported hreport
    refine ⟨hline, hne, ?_⟩
    rw [hrepl, hrepl, session_line c.settings hfeed hend, reply_of_reported hreport]
    show Ending.mk 0 (Output.mk _ _) = Ending.mk 0 (Output.mk _ _)
    simp only [Output.append_out, Output.append_err, String.append_empty, String.empty_append]

/-- A parenthesis that is left open does not reach into the next line, a byte that begins no
character does not end the session, and a carriage return that is the last byte of an input stands
in its line. Every file here holds its own path. -/
theorem sessions_have_no_memory_open_call :
    let files : Files := fun path => .ok path.toUTF8
    let repl (input : List UInt8) : Ending := run files input ⟨none, .repl⟩
    (∃ front, (repl [102, 40, 10]).output.out = front ++ (prompt ++ farewell) ∧
        repl ([102, 40, 10] ++ [102, 40]) = ⟨0, ⟨front ++ (repl [102, 40]).output.out,
          (repl [102, 40, 10]).output.err ++ (repl [102, 40]).output.err⟩⟩) ∧
      (repl ("f(".toUTF8.data.toList ++ 10 :: [])).output.out =
        "> 1:1 IDENTIFIER(\"f\")\n1:2 L_PAREN\n1:3 EOF\n> \nExited scriptlang repl\n" ∧
      (repl "f(".toUTF8.data.toList).output.out =
        "> 1:1 IDENTIFIER(\"f\")\n1:2 L_PAREN\n1:3 EOF\n> \nExited scriptlang repl\n" ∧
      (repl "f\r".toUTF8.data.toList).output.out =
        "> 1:1 IDENTIFIER(\"f\")\n1:3 EOF\n> \nExited scriptlang repl\n" ∧
      repl ([255] ++ 10 :: [102, 40]) =
        ⟨0, ⟨"> > 1:1 IDENTIFIER(\"f\")\n1:2 L_PAREN\n1:3 EOF\n> \nExited scriptlang repl\n",
          "Failed read line: stream did not contain valid UTF-8\n"⟩⟩ := by
  intro files repl
  have hloads : Loads files none {} := .standard
  have hbyte : ∀ t : String, [255] ≠ t.toUTF8.data.toList :=
    fromUTF8?_eq_none_iff.mp (by decide)
  have hlisted := (sessions_have_no_memory hloads).2.1
  have hcall := (hlisted "f(" (by decide) ("f(" ++ "\n") []).1 rfl
  have hreturn := (hlisted "f\r" (by decide) "f\r" []).2 rfl (by decide)
  have hbad := ((sessions_have_no_memory hloads).2.2 [255] _ _ [102, 40] (by decide)
    (.feed [102, 40]) _ (.unreadable hbyte)).2.2
  refine ⟨(sessions_have_no_memory hloads).1 [102, 40, 10] [102, 40] (by decide), ?_, ?_, ?_, ?_⟩
  · refine (hcall.1 []).trans ?_
    cbv
  · refine (hcall.2 (by decide) (by decide)).trans ?_
    cbv
  · refine hreturn.trans ?_
    cbv
  · refine hbad.trans ?_
    cbv

/-- What is printed about a text that the input ends with need not be what file mode prints about a
file that holds the text and a line feed. At the end of an input the second byte below belongs to
the line, and in the file to the line break. -/
theorem not_sessions_match_files_unterminated :
    ¬ ∀ (files : Files) (config : Option String) (c : Configuration), Loads files config c →
      ∀ (t : String) (tail rest : List UInt8), '\n' ∉ t.toList →
      tail = 10 :: rest ∨ t ≠ "" ∧ tail = [] ∧ rest = [] →
      ∀ (path : String) (input : List UInt8), files path = .ok (t ++ "\n").toUTF8 →
        (run files (t.toUTF8.data.toList ++ tail) ⟨config, .repl⟩).output.out =
          prompt ++ (run files input ⟨config, .file path⟩).output.out ++
            (run files rest ⟨config, .repl⟩).output.out := by
  intro hmatch
  let files : Files := fun path => .ok path.toUTF8
  have hout := hmatch files none {} .standard "a\r" [] [] (by decide)
    (.inr ⟨by decide, rfl, rfl⟩) ("a\r" ++ "\n") [] rfl
  have hprinted : (run files ("a\r".toUTF8.data.toList ++ []) ⟨none, .repl⟩).output.out =
        "> 1:1 IDENTIFIER(\"a\")\n1:3 EOF\n> \nExited scriptlang repl\n" ∧
      prompt ++ (run files [] ⟨none, .file ("a\r" ++ "\n")⟩).output.out ++
        (run files [] ⟨none, .repl⟩).output.out =
          "> 1:1 IDENTIFIER(\"a\")\n1:2 EOF\n> \nExited scriptlang repl\n" := by
    constructor
    · cbv
    · cbv
  rw [hprinted.1, hprinted.2] at hout
  exact absurd hout (by decide)

end Offside.Command
