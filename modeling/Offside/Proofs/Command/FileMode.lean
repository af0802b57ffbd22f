import Mathlib
import Offside.Command.Request
import Offside.Proofs.Text.Lines
import Offside.Proofs.Text.OneLine

/-!
# `Offside.Proofs.Command.FileMode`: file mode prints everything or nothing

A run in file mode goes through three things that can fail: the configuration, the text of the
source and its scan. `Loads` says what configuration a request gets and `Tokenizes` what tokens a
run has when all three succeed. A run either has tokens and lists them, or has none and fails
(`run_file_cases`), and that is the whole of `file_mode_all_or_nothing`.

What is listed can be taken apart again: the text of a token is one line, so the lines of the output
are the texts of the tokens (`linesOf_listing`).
-/

set_option autoImplicit false

namespace Offside.Command

/-! ### Listings -/

theorem toList_listing (tokens : List Token) :
    (listing tokens).toList = (tokens.map (fun t => t.text.toList)).flatMap (· ++ ['\n']) := by
  simp only [listing, String.toList_join, List.flatMap_map, String.toList_append]
  rfl

/-- The lines of a listing are the texts of its tokens. -/
theorem linesOf_listing (tokens : List Token) :
    Text.linesOf (listing tokens) = tokens.map (fun t => t.text.toList) := by
  have hlines : ∀ line ∈ tokens.map (fun t => t.text.toList), OneLine line := by
    intro line hline
    obtain ⟨t, -, rfl⟩ := List.mem_map.mp hline
    exact t.oneLine_text
  rw [Text.linesOf, toList_listing,
    Text.splitLines_flatMap fun line hline => (hlines line hline).feed_not_mem]
  -- No text ends in a carriage return that would be taken for a part of the line break.
  refine (List.map_congr_left fun line hline => ?_).trans (List.map_id _)
  exact Text.dropFinal_of_ne (hlines line hline).getLast?_ne

/-! ### What is read -/

theorem Files.text_eq_ok_iff {files : Files} {path s : String} :
    files.text path = .ok s ↔ files path = .ok s.toUTF8 := by
  unfold Files.text
  cases hfile : files path with
  | error e => simp
  | ok bytes =>
    simp only [Except.ok.injEq, ← Text.fromUTF8?_eq_some_iff]
    cases String.fromUTF8? bytes <;> simp

/-- The configuration that a request gets: the standard one, or the one that the text of a file
describes. -/
inductive Loads (files : Files) : Option String → Configuration → Prop where
  /-- No file is named. -/
  | standard : Loads files none {}
  /-- The file holds a text that is a configuration. -/
  | file {path document : String} {c : Configuration} (hfile : files path = .ok document.toUTF8)
      (hparse : Configuration.parse document = some c) : Loads files (some path) c

theorem loadConfiguration_eq_ok_iff {files : Files} {path : String} {c : Configuration} :
    loadConfiguration files path = .ok c ↔
      ∃ document, files.text path = .ok document ∧ Configuration.parse document = some c := by
  unfold loadConfiguration
  cases files.text path with
  | error e => simp
  | ok document =>
    simp only [Except.ok.injEq, exists_eq_left']
    cases Configuration.parse document <;> simp

theorem configuration_eq_ok_iff {files : Files} {config : Option String} {c : Configuration} :
    configuration files config = .ok c ↔ Loads files config c := by
  constructor
  · intro h
    cases config with
    | none =>
      cases h
      exact .standard
    | some path =>
      obtain ⟨document, htext, hparse⟩ := loadConfiguration_eq_ok_iff.mp h
      exact .file (Files.text_eq_ok_iff.mp htext) hparse
  · rintro (_ | ⟨hfile, hparse⟩)
    · rfl
    · exact loadConfiguration_eq_ok_iff.mpr ⟨_, Files.text_eq_ok_iff.mpr hfile, hparse⟩

/-- The tokens that a source file has under the configuration that a request gets. -/
structure Tokenizes (files : Files) (config : Option String) (path : String) (c : Configuration)
    (source : String) (tokens : List Token) : Prop where
  /-- The configuration loads. -/
  loads : Loads files config c
  /-- The file holds a text. -/
  readable : files path = .ok source.toUTF8
  /-- The text can be scanned. -/
  scans : Scan.scanSource c.settings source = .ok tokens

theorem tokenizeFile_eq_ok_iff {files : Files} {settings : Settings} {path : String}
    {tokens : List Token} :
    tokenizeFile files settings path = .ok tokens ↔
      ∃ source, files.text path = .ok source ∧ Scan.scanSource settings source = .ok tokens := by
  unfold tokenizeFile
  cases files.text path with
  | error e => simp
  | ok source =>
    simp only [Except.ok.injEq, exists_eq_left']
    cases Scan.scanSource settings source <;> simp

/-! ### The run -/

theorem runFile_cases (files : Files) (settings : Settings) (path : String) :
    (∃ tokens, tokenizeFile files settings path = .ok tokens ∧
        runFile files settings path = ⟨0, { out := listing tokens }⟩) ∨
      (∀ tokens, tokenizeFile files settings path ≠ .ok tokens) ∧
        ∃ f, runFile files settings path = failed "Failed run file" f := by
  unfold runFile
  cases tokenizeFile files settings path with
  | error f =>
    right
    constructor
    · intro tokens h
      cases h
    · exact ⟨f, rfl⟩
  | ok tokens => exact .inl ⟨tokens, rfl, rfl⟩

/-- A run in file mode has tokens and lists them, or it has none and fails. -/
theorem run_file_cases (files : Files) (input : List UInt8) (config : Option String)
    (path : String) :
    (∃ c source tokens, Tokenizes files config path c source tokens ∧
        run files input ⟨config, .file path⟩ = ⟨0, { out := listing tokens }⟩) ∨
      (∀ c source tokens, ¬ Tokenizes files config path c source tokens) ∧
        ∃ attempt f, run files input ⟨config, .file path⟩ = failed attempt f := by
  unfold run
  cases hconfig : configuration files config with
  | error f =>
    right
    constructor
    · intro c source tokens h
      rw [configuration_eq_ok_iff.mpr h.loads] at hconfig
      cases hconfig
    · exact ⟨_, f, rfl⟩
  | ok c =>
    simp only
    rcases runFile_cases files c.settings path with ⟨tokens, htokens, hrun⟩ | ⟨hnone, f, hrun⟩
    · obtain ⟨source, htext, hscan⟩ := tokenizeFile_eq_ok_iff.mp htokens
      left
      exact ⟨c, source, tokens,
        ⟨configuration_eq_ok_iff.mp hconfig, Files.text_eq_ok_iff.mp htext, hscan⟩, hrun⟩
    · right
      constructor
      · intro c' source tokens h
        -- Only one configuration is loaded.
        rw [configuration_eq_ok_iff.mpr h.loads] at hconfig
        cases hconfig
        exact hnone tokens (tokenizeFile_eq_ok_iff.mpr
          ⟨source, Files.text_eq_ok_iff.mpr h.readable, h.scans⟩)
      · exact ⟨_, f, hrun⟩

/-- What is read determines the tokens. -/
theorem Tokenizes.tokens_unique {files : Files} {config : Option String} {path : String}
    {c c' : Configuration} {source source' : String} {tokens tokens' : List Token}
    (h : Tokenizes files config path c source tokens)
    (h' : Tokenizes files config path c' source' tokens') : tokens = tokens' := by
  have hc := (configuration_eq_ok_iff.mpr h.loads).symm.trans (configuration_eq_ok_iff.mpr h'.loads)
  cases hc
  have hs := (Files.text_eq_ok_iff.mpr h.readable).symm.trans
    (Files.text_eq_ok_iff.mpr h'.readable)
  cases hs
  exact Except.ok.inj (h.scans.symm.trans h'.scans)

theorem failed_err_ne (attempt : String) (f : Failure) : (failed attempt f).output.err ≠ "" := by
  intro h
  have hlast : (attempt ++ ": " ++ f.text ++ "\n").toList = [] := by
    rw [show attempt ++ ": " ++ f.text ++ "\n" = "" from h]
    rfl
  simp at hlast

/-- **File mode prints everything or nothing.** A run ends well exactly if the configuration loads,
the source is a text and its scan succeeds. Then it prints the text of every token, each with a
line feed behind it, so that the lines of the output are these texts, and reports nothing.
Otherwise it prints nothing and reports something. -/
theorem file_mode_all_or_nothing (files : Files) (input : List UInt8) (config : Option String)
    (path : String) :
    let ending := run files input ⟨config, .file path⟩
    (ending.exit = 0 ↔ ∃ c source tokens, Tokenizes files config path c source tokens) ∧
      (∀ c source tokens, Tokenizes files config path c source tokens →
        ending = ⟨0, ⟨String.join (tokens.map (fun t => t.text ++ "\n")), ""⟩⟩ ∧
          Text.linesOf ending.output.out = tokens.map (fun t => t.text.toList)) ∧
      (ending.exit ≠ 0 → ending.exit = 1 ∧ ending.output.out = "" ∧ ending.output.err ≠ "") := by
  intro ending
  rcases run_file_cases files input config path with
    ⟨c, source, tokens, htokens, hrun⟩ | ⟨hnone, attempt, f, hrun⟩
  · have hending : ending = ⟨0, { out := listing tokens }⟩ := hrun
    rw [hending]
    refine ⟨⟨fun _ => ⟨c, source, tokens, htokens⟩, fun _ => rfl⟩, ?_, fun h => absurd rfl h⟩
    intro c' source' tokens' htokens'
    rw [← htokens.tokens_unique htokens']
    exact ⟨rfl, linesOf_listing tokens⟩
  · have hending : ending = failed attempt f := hrun
    rw [hending]
    have hnot : (failed attempt f).exit ≠ 0 := by simp [failed]
    refine ⟨⟨fun h => absurd h hnot, ?_⟩, ?_, fun _ => ⟨rfl, rfl, failed_err_ne attempt f⟩⟩
    · rintro ⟨c, source, tokens, htokens⟩
      exact absurd htokens (hnone c source tokens)
    · intro c source tokens htokens
      exact absurd htokens (hnone c source tokens)

/-- A source that can be scanned under settings from a file is listed, with the mark of its comment.
One that fails in its second line is not, not even its first token. -/
theorem file_mode_all_or_nothing_settings :
    let files : Files := fun path =>
      if path = "settings" then .ok "lexer.emit_comments = true".toUTF8
      else if path = "good" then .ok "a // b\n".toUTF8
      else .ok "a\nb $\n".toUTF8
    let c : Configuration := { settings := { emitComments := true } }
    Tokenizes files (some "settings") "good" c "a // b\n"
        [⟨.identifier, some (.string "a"), 1, 1⟩, ⟨.singleComment, none, 1, 3⟩,
          ⟨.eof, none, 1, 7⟩] ∧
      run files [] ⟨some "settings", .file "good"⟩ =
        ⟨0, ⟨"1:1 IDENTIFIER(\"a\")\n1:3 SINGLE_COMMENT\n1:7 EOF\n", ""⟩⟩ ∧
      (run files [] ⟨some "settings", .file "bad"⟩).exit = 1 ∧
      (run files [] ⟨some "settings", .file "bad"⟩).output.out = "" ∧
      (run files [] ⟨some "settings", .file "bad"⟩).output.err ≠ "" := by
  intro files c
  have hloads : Loads files (some "settings") c := .file rfl (by cbv)
  have htokens : Tokenizes files (some "settings") "good" c "a // b\n"
      [⟨.identifier, some (.string "a"), 1, 1⟩, ⟨.singleComment, none, 1, 3⟩,
        ⟨.eof, none, 1, 7⟩] := ⟨hloads, rfl, by cbv⟩
  have hbad : Scan.scanSource c.settings "a\nb $\n" =
      .error ⟨2, some 3, .illegalCharacter '$'⟩ := by cbv
  have hexit : (run files [] ⟨some "settings", .file "bad"⟩).exit ≠ 0 := by
    have htext : files.text "bad" = .ok "a\nb $\n" := Files.text_eq_ok_iff.mpr rfl
    simp [run, configuration_eq_ok_iff.mpr hloads, runFile, tokenizeFile, htext, hbad, failed]
  refine ⟨htokens, ?_, (file_mode_all_or_nothing files [] _ _).2.2 hexit⟩
  rw [((file_mode_all_or_nothing files [] _ _).2.1 _ _ _ htokens).1]
  cbv

end Offside.Command
