/-
The dump of tokens as a text of its own. Without colours a token is
shown by one character, the one that it was made from, and the end of
the input by a line feed (`toList_dumpTokens`); so the dump of a text is
the text without its blanks, on a line of its own
(`toList_dumpTokens_scan`).

Such a line can take the place of the text. Nothing that is left of the
text is a blank, and the line feed behind it is one, so a scan of the
dump comes to the same kinds of tokens (`kinds_scan_dumpTokens`). The
places of the tokens are others; but a dump does not show them
(`dumpTokens_congr`), so the dump of the dump is the same text again.

A run prints the tokens before it reads them as a program. What is
printed stays in front of what follows, so a run that is asked for the
tokens begins with the first stage and their dump, whatever becomes of
the text then (`Session.prefix_output`).
-/
import TapeAsm.Proofs.Cli.Sections
import TapeAsm.Proofs.Source.Printing
import TapeAsm.Proofs.Source.Tokens

namespace TapeAsm

-- ============================================================== blanks

/-- What is left without the blanks, with the blanks by name. -/
theorem inked_eq_filter (cs : List Char) :
    inked cs = cs.filter (· ∉ [' ', '\t', '\r', '\n']) := by
  refine List.filter_congr fun c _ => ?_
  rw [Bool.eq_iff_iff, decide_eq_true_iff, ← isBlank_iff,
    Bool.not_eq_true', Bool.not_eq_true]

/-- Once the blanks are gone, there are no more. -/
theorem inked_inked (cs : List Char) : inked (inked cs) = inked cs := by
  unfold inked
  rw [List.filter_filter]
  simp only [Bool.and_self]

namespace Cli

open Session (uncolored)

-- =============================================================== dumps

/-- The character that shows a token: its own, or a line feed for the end
of the input. -/
def shownBy (kind : TokenKind) : Char :=
  kind.symbol?.getD '\n'

/-- A character of a text is shown by itself. -/
theorem shownBy_ofChar (c : Char) : shownBy (.ofChar c) = c := by
  rw [shownBy, TokenKind.symbol?_ofChar, Option.getD_some]

theorem dumpToken_uncolored (kind : TokenKind) :
    dumpToken uncolored kind = String.singleton (shownBy kind) := by
  cases kind <;> rfl

/-- A dump shows the tokens one by one, and of each its kind alone. -/
theorem toList_dumpTokens (tokens : List Token) :
    (dumpTokens uncolored tokens).toList
      = (tokens.map Token.kind).map shownBy := by
  rw [dumpTokens, String.toList_join, List.flatMap_map, List.map_map,
    List.map_eq_flatMap]
  simp only [dumpToken_uncolored, String.toList_singleton,
    Function.comp_apply]

/-- The places of the tokens do not show. -/
theorem dumpTokens_congr {tokens tokens' : List Token}
    (h : tokens.map Token.kind = tokens'.map Token.kind) :
    dumpTokens uncolored tokens = dumpTokens uncolored tokens' := by
  rw [← String.toList_inj, toList_dumpTokens, h, ← toList_dumpTokens]

/-- The dump of a text is the text without its blanks, and a line
feed. -/
theorem toList_dumpTokens_scan (source : String) :
    (dumpTokens uncolored (Token.scan source)).toList
      = inked source.toList ++ ['\n'] := by
  have hshown : shownBy ∘ TokenKind.ofChar = id := funext shownBy_ofChar
  rw [toList_dumpTokens, Token.kinds_scan, List.map_append, List.map_map,
    hshown, List.map_id]
  rfl

/-- The dump of a text has the tokens of the text, at other places. -/
theorem kinds_scan_dumpTokens (source : String) :
    (Token.scan (dumpTokens uncolored (Token.scan source))).map Token.kind
      = (Token.scan source).map Token.kind := by
  -- The line feed for the end is a blank, so it leaves no token behind.
  have hink : inked (dumpTokens uncolored (Token.scan source)).toList
      = inked source.toList := by
    rw [toList_dumpTokens_scan, inked_append, inked_inked,
      inked_cons_of_blank rfl]
    exact List.append_nil _
  rw [Token.kinds_scan, hink, ← Token.kinds_scan]

-- =============================================================== runs

/-- What a report prints stays in front of what follows. -/
theorem Report.prefix_bind {α β : Type} (r : Report α)
    (f : α → Report β) : r.chunks <+: (r >>= f).chunks := by
  obtain ⟨chunks, result⟩ := r
  cases result with
  | error e => rw [Report.bind_of_error]
  | ok v =>
      rw [Report.bind_of_ok]
      exact List.prefix_append ..

namespace Action

variable {State α β : Type} {s s' : State}

theorem chunks_bind_of_ok {act : Action State α} {chunks : List Chunk}
    {v : α} (h : act.run s = (s', ⟨chunks, .ok v⟩))
    (f : α → Action State β) :
    ((act >>= f).run s).2.chunks = chunks ++ ((f v).run s').2.chunks := by
  rw [run_bind_of_ok h rfl]

/-- What an action prints stays in front of what follows. -/
theorem prefix_bind (act : Action State α) (f : α → Action State β)
    (s : State) :
    (act.run s).2.chunks <+: ((act >>= f).run s).2.chunks := by
  match h : act.run s with
  | (s', ⟨chunks, .error e⟩) => rw [run_bind_of_error h]
  | (s', ⟨chunks, .ok v⟩) =>
      rw [chunks_bind_of_ok h]
      exact List.prefix_append ..

end Action

namespace Session

variable {State : Type} {fs : FileSystem State} {style : Style}
  {a : Arguments} {s : State} {source : String}

theorem output_settle :
    (settle fs style a s).output
      = ((compileFile fs style a).run s).2.chunks := rfl

/-- A run on a text begins with the first stage, whatever becomes of the
text then. -/
theorem prefix_output (h : fs.read s a.file = .ok source) :
    (opening a).chunks ++ (scan style a source).chunks
      <+: (settle fs style a s).output := by
  have hopening : (Action.report (opening a)).run s
      = (s, ⟨(opening a).chunks, .ok ()⟩) := rfl
  have hstages : (scan style a source).chunks
      <+: ((Action.report (stages style a source)).run s).2.chunks :=
    Report.prefix_bind ..
  rw [output_settle, compileFile_eq, Action.chunks_bind_of_ok hopening,
    Action.chunks_bind_of_ok (Action.run_read_of_ok h), List.nil_append]
  refine (List.prefix_append_right_inj _).mpr ?_
  exact hstages.trans (Action.prefix_bind ..)

/-- The first stage ends in the dump, if it is asked for. -/
theorem chunks_scan (h : .tokens ∈ a.commands) :
    (scan uncolored a source).chunks
      = [.text "Starting lexing\n", .text "Finished lexing in ", .elapsed,
        .text "\n", .text (dumpTokens uncolored (Token.scan source))] := by
  unfold scan
  rw [decide_eq_true h]
  rfl

end Session

-- ============================================================ the dump

/-- A text shows another one as a dump of its tokens does. -/
structure Dumped (source dump : String) : Prop where
  /-- It is the other text without the blanks in it, and a line feed. -/
  text : dump
    = String.ofList (source.toList.filter (· ∉ [' ', '\t', '\r', '\n']))
      ++ "\n"
  /-- It has tokens of the same kinds, in the same order. -/
  kinds : (Token.scan dump).map Token.kind
    = (Token.scan source).map Token.kind
  /-- It is its own dump. -/
  again : dumpTokens uncolored (Token.scan dump) = dump
  /-- A run on the other text that is asked for the tokens begins with it,
  behind the lines of the first stage, also where the text is no
  program. -/
  onDemand : ∀ {State : Type} (fs : FileSystem State) (a : Arguments)
    (s : State), fs.read s a.file = .ok source → .tokens ∈ a.commands →
    [.text ("Compiling " ++ a.file ++ "\n"), .text "Starting lexing\n",
        .text "Finished lexing in ", .elapsed, .text "\n", .text dump]
      <+: (Session.settle fs uncolored a s).output

/-- Without colours, the dump of a text's tokens shows the text and can be
scanned in place of it, whether the tokens make a program or not. -/
theorem dumped_scan (source : String) :
    Dumped source (dumpTokens uncolored (Token.scan source)) where
  text := by
    rw [← String.toList_inj, toList_dumpTokens_scan, inked_eq_filter,
      String.toList_append, String.toList_ofList]
    rfl
  kinds := kinds_scan_dumpTokens source
  again := dumpTokens_congr (kinds_scan_dumpTokens source)
  onDemand fs a s hread hasked := by
    have hprefix : _ <+: (Session.settle fs uncolored a s).output :=
      Session.prefix_output hread
    rw [Session.chunks_scan hasked] at hprefix
    exact hprefix

/-- A text with a bracket that has no partner is dumped like any other,
and a run on it prints the dump. -/
theorem dumped_scan_unmatched :
    Program.ofTokens (Token.scan "]\té [\r\n")
        = .error (.strayClose .start)
      ∧ [.text "Compiling b\n", .text "Starting lexing\n",
          .text "Finished lexing in ", .elapsed, .text "\n",
          .text "]é[\n"]
        <+: (Session.settle Volume.fileSystem uncolored
          { file := "b", commands := [.tokens] }
          ⟨[("b", .text "]\té [\r\n")]⟩).output := by
  have hread : Volume.readText ⟨[("b", .text "]\té [\r\n")]⟩ "b"
      = .ok "]\té [\r\n" := Volume.readText_letter (by decide) rfl
  refine ⟨rfl, ?_⟩
  exact (dumped_scan "]\té [\r\n").onDemand Volume.fileSystem
    { file := "b", commands := [.tokens] } _ hread List.mem_cons_self

end Cli

end TapeAsm
