import IntScript.Bindings.Lemmas
import IntScript.Proofs.Session.Parts
import IntScript.Proofs.Shell.Typing
import IntScript.Settings.Basic
import IntScript.Shell.Basic

/-!
# A program typed into a dialogue

Main statement: a program that is typed line by line does what it does in one piece
(`Shell.converse_of_program`).  If its functions are closed and have no blank line in them, and if
the program runs to its end, the dialogue reports no error and drops no chunk, between its prompts it
shows the output of the program, and it comes to the same variables and functions.

One line is one step.  Either it completes a chunk, and then the chunk is a program, what is left is
a program, and the two are run one after the other as they would be in one piece; or it leaves the
chunk open, and then the line that comes next is not blank and is added to it.  What the steps keep
is `Dialogue.Mirrors`.
-/

namespace IntScript

/-! ## Reserved words -/

theorem Settings.usable_reserved (settings : Settings) : settings.reserved.Usable := by
  intro word k h
  rw [reserved, Bindings.get?_filterMap] at h
  obtain ⟨use, -, huse⟩ := Option.bind_eq_some_iff.mp h
  exact Keywords.usable_standard use k huse

/-! ## Runs -/

theorem Chunk.parse_of_isBlank {bs : List UInt8} (h : isBlank bs = true) (kw : Keywords) :
    parse bs kw = .ok (.node .root .nowhere []) := by
  obtain ⟨l, t, hdrain, ht, -, hnewlines⟩ := Scanner.drain_of_blank (.ofBytes bs kw)
    (isBlank_iff.mp h)
  let ns : List (Grammar.Leaf .newline) := l.pmap Subtype.mk hnewlines
  have hns : ns.map (·.1) = l := by simp [ns, List.map_pmap]
  let p : Grammar.Program := ⟨ns.map fun n => .line (.newline n), t, ht⟩
  have hp : p.tokens = l ++ [t] := by rw [Grammar.Program.tokens, Grammar.tokens_newlines, hns]
  have htree : p.tree = .node .root .nowhere [] := by
    rw [Grammar.Program.tree, List.filterMap_map]
    congr 1
    exact List.filterMap_eq_nil_iff.mpr fun _ _ => rfl
  have hread := p.parse_tokens [] none
  rw [List.append_nil, hp, htree] at hread
  rw [parse_eq_parse, Tokens.ofBytes, hdrain]
  exact hread

namespace Session

theorem grows_run (s : Session) (bs : List UInt8) : s.machine.Grows (s.run bs).2.machine := by
  cases h : parse bs s.keywords with
  | error e =>
      unfold run
      rw [h]
      exact refl (r := Machine.Grows) _
  | ok root =>
      obtain ⟨f, t, l⟩ := root
      obtain rfl : f = .root := (wellFormed_of_parse h).1
      rw [run_of_parse h]
      exact (Action.confined_statements s.limits s.machine.frames.length l s.machine).grows

theorem run_joined {s : Session} (hkw : ∀ word, s.keywords.get? word ≠ some .endOfText)
    {above below : List UInt8} {a b : Tree} (ha : parse above s.keywords = .ok a)
    (hb : parse below s.keywords = .ok b) (hok : (s.run (above ++ 10 :: below)).1 = .ok ()) :
    (s.run above).1 = .ok () ∧ ((s.run above).2.run below).1 = .ok () ∧
      ((s.run above).2.run below).2.machine.sink = (s.run (above ++ 10 :: below)).2.machine.sink ∧
      ((s.run above).2.run below).2.globals = (s.run (above ++ 10 :: below)).2.globals ∧
      ((s.run above).2.run below).2.functionNames =
        (s.run (above ++ 10 :: below)).2.functionNames := by
  have hjoined := parse_joined hkw ha hb
  obtain ⟨f, t, l⟩ := a
  obtain rfl : f = .root := (wellFormed_of_parse ha).1
  obtain ⟨f, u, l'⟩ := b
  obtain rfl : f = .root := (wellFormed_of_parse hb).1
  have hfirst : (s.run above).1 = .ok () := by
    have hwhole := execute_of_run_ok hjoined hok
    rw [run_of_parse ha]
    rcases hr : s.machine.execute s.limits (.node .root t l) with ⟨e | _, m⟩
    · -- if the first text failed, so would the two in one piece
      have hl : (Action.statements (Action.callWithin s.limits s.machine.frames.length) l).run
        s.machine = (.error e, m) := hr
      have hfails : (Action.statements (Action.callWithin s.limits s.machine.frames.length)
          (l ++ l'.map (Tree.lower (1 + above.count 10)))).run s.machine = (.error e, m) := by
        rw [Action.statements_append]
        exact Action.run_bind_of_error hl
      cases hwhole.symm.trans hfails
    · rfl
  have hb₁ : parse below (s.run above).2.keywords = .ok (.node .root u l') := by
    rw [keywords_run]
    exact hb
  have hjoint := Action.joint_joined (execute_of_run_ok ha hfirst) (1 + above.count 10) u .nowhere l'
  obtain ⟨halike, hend⟩ := run_alike hb₁ hjoined (by rw [limits_run]; exact hjoint)
  refine ⟨hfirst, ?_, halike.sink, congrArg Bindings.entries halike.globals,
    halike.functions.names_eq⟩
  rcases hend with ⟨hsecond, -⟩ | ⟨e, e', -, herror, -⟩
  · exact hsecond
  · cases hok.symm.trans herror

theorem run_of_isBlank (s : Session) {bs : List UInt8} (h : Chunk.isBlank bs = true) :
    s.run bs = (.ok (), s) := by
  rw [run_of_parse (Chunk.parse_of_isBlank h s.keywords)]
  rfl

end Session

/-! ## Lines and chunks -/

namespace Chunk

/-- The chunk with one more line, which is its first if there is none. -/
def attach (pending line : List UInt8) : List UInt8 :=
  if pending = [] then line else pending ++ 10 :: line

theorem addLine_of_not_blank {pending line : List UInt8} (h : pending = [] ∨ isBlank line = false)
    (kw : Keywords) :
    addLine pending line kw =
      if needsMore (attach pending line) kw then .pending (attach pending line)
      else .done (attach pending line) := by
  unfold addLine
  rw [if_neg]
  · rfl
  · rintro ⟨hne, hblank⟩
    rcases h with h | h
    · exact hne h
    · rw [h] at hblank
      cases hblank

theorem isBlank_nil : isBlank [] = true := by
  rw [isBlank, Text.Utf8.decode_nil]
  rfl

theorem needsMore_nil (kw : Keywords) : needsMore [] kw = false := by
  have hcommand : isCommand [] = false := by
    rw [isCommand, Text.Utf8.decode_nil]
    rfl
  unfold needsMore
  rw [hcommand, parse_of_isBlank isBlank_nil kw]
  rfl

theorem intercalate_eq_extend (line : List UInt8) (lines : List (List UInt8)) :
    ['\n'.toUInt8].intercalate (line :: lines) = extend line lines := by
  induction lines generalizing line with
  | nil => simp [extend]
  | cons line' lines ih =>
      rw [extend_cons, ← ih line', List.intercalate_cons_cons, List.append_assoc]
      rfl

end Chunk

namespace Shell

open Chunk

/-- A chunk that is a program of its own is run, and it does not matter if it is blank. -/
theorem takeChunk_of_typable (sh : Shell) (hkw : sh.session.keywords.Usable) {chunk : List UInt8}
    (h : Typable sh.session.keywords chunk) (hok : (sh.session.run chunk).1 = .ok ()) :
    ∃ history, sh.takeChunk chunk =
      ⟨{ sh with session := (sh.session.run chunk).2, history },
        (sh.session.run chunk).2.machine.sink.textFrom sh.session.machine.sink.lines.size, none,
        false⟩ := by
  unfold takeChunk
  by_cases hblank : isBlank chunk = true
  · refine ⟨sh.history, ?_⟩
    rw [if_pos hblank, Session.run_of_isBlank _ hblank, Sink.textFrom_size]
  · refine ⟨sh.history.add (entry chunk), ?_⟩
    rw [if_neg hblank, isCommand_eq_false hkw h.1, if_neg Bool.false_ne_true]
    show run _ chunk = _
    unfold run
    rcases hrun : sh.session.run chunk with ⟨result, s⟩
    obtain rfl : result = .ok () := by rwa [hrun] at hok
    rfl

theorem takeLine_of_typable (sh : Shell) (hkw : sh.session.keywords.Usable) {line : List UInt8}
    (hline : sh.pending = [] ∨ isBlank line = false) {chunk : List UInt8}
    (hchunk : attach sh.pending line = chunk) (h : Typable sh.session.keywords chunk)
    (hok : (sh.session.run chunk).1 = .ok ()) :
    ∃ history, sh.takeLine line = ⟨⟨(sh.session.run chunk).2, [], history⟩,
      (sh.session.run chunk).2.machine.sink.textFrom sh.session.machine.sink.lines.size, none,
      false⟩ := by
  obtain ⟨history, htake⟩ := takeChunk_of_typable { sh with pending := [] } hkw h hok
  refine ⟨history, ?_⟩
  unfold takeLine
  rw [addLine_of_not_blank hline, hchunk, h.needsMore_eq_false hkw]
  exact htake

theorem takeLine_of_needsMore (sh : Shell) {line : List UInt8}
    (hline : sh.pending = [] ∨ isBlank line = false) {chunk : List UInt8}
    (hchunk : attach sh.pending line = chunk) (h : needsMore chunk sh.session.keywords = true) :
    sh.takeLine line = ⟨{ sh with pending := chunk }, "", none, false⟩ := by
  unfold takeLine
  rw [addLine_of_not_blank hline, hchunk, h]
  rfl

/-- The dialogue over `n` lines goes on from `text` and `errors` as the run of a program does: there
are no more errors, nothing is left over, output, variables and functions are those of the run, and
with the prompts taken out what is shown is what the program writes. -/
structure Dialogue.Mirrors (d : Dialogue) (text : String) (errors : List ProgramError) (s : Session)
    (bs : List UInt8) (n : Nat) : Prop where
  errors : d.errors = errors
  pending : d.shell.pending = []
  sink : d.shell.session.machine.sink = (s.run bs).2.machine.sink
  globals : d.shell.session.globals = (s.run bs).2.globals
  functionNames : d.shell.session.functionNames = (s.run bs).2.functionNames
  shown : ∃ replies : List (String × String), replies.length = n ∧
    (∀ r ∈ replies, r.1 = "fs> " ∨ r.1 = "..> ") ∧
    d.text = text ++ String.join (replies.map fun r => r.1 ++ r.2) ++ "fs> \n" ∧
    String.join (replies.map (·.2)) =
      (s.run bs).2.machine.sink.textFrom s.machine.sink.lines.size

theorem prompt_cases (sh : Shell) : sh.prompt = "fs> " ∨ sh.prompt = "..> " := by
  unfold prompt
  split
  · exact .inl rfl
  · exact .inr rfl

theorem mirrors_nil (sh : Shell) (text : String) (errors : List ProgramError)
    (h : sh.pending = []) : (sh.converse text errors []).Mirrors text errors sh.session [] 0 := by
  have hrun := (Session.run_of_isBlank sh.session isBlank_nil).symm
  refine ⟨rfl, h, congrArg (·.2.machine.sink) hrun, congrArg (·.2.globals) hrun,
    congrArg (·.2.functionNames) hrun, [], rfl, fun r hr => absurd hr List.not_mem_nil, ?_, ?_⟩
  · rw [converse, prompt, if_pos h]
    simp [String.append_assoc]
  · rw [← hrun, Sink.textFrom_size]
    rfl

/-- One line.  What is left of the program, run behind the line, comes to what the program comes to. -/
theorem mirrors_cons {sh sh' : Shell} {out : String} {errors : List ProgramError}
    {line bs bs' : List UInt8} {lines : List (List UInt8)} {n : Nat}
    (htake : sh.takeLine line = ⟨sh', out, none, false⟩)
    (h : ∀ text, (sh'.converse text errors lines).Mirrors text errors sh'.session bs' n)
    (hruns : (sh'.session.run bs').2.machine.sink = (sh.session.run bs).2.machine.sink ∧
      (sh'.session.run bs').2.globals = (sh.session.run bs).2.globals ∧
      (sh'.session.run bs').2.functionNames = (sh.session.run bs).2.functionNames)
    (hout : (sh.session.run bs).2.machine.sink.textFrom sh.session.machine.sink.lines.size =
      out ++ (sh'.session.run bs').2.machine.sink.textFrom sh'.session.machine.sink.lines.size)
    (text : String) :
    (sh.converse text errors (line :: lines)).Mirrors text errors sh.session bs (n + 1) := by
  have hconverse : sh.converse text errors (line :: lines) =
      sh'.converse (text ++ sh.prompt ++ out) errors lines := by
    rw [converse, htake]
    simp
  have hrest := h (text ++ sh.prompt ++ out)
  obtain ⟨hsink, hglobals, hnames⟩ := hruns
  obtain ⟨replies, hlength, hprompts, htext, hjoin⟩ := hrest.shown
  rw [hconverse]
  refine ⟨hrest.errors, hrest.pending, hrest.sink.trans hsink, hrest.globals.trans hglobals,
    hrest.functionNames.trans hnames, (sh.prompt, out) :: replies, by simp [hlength], ?_, ?_, ?_⟩
  · rw [List.forall_mem_cons]
    exact ⟨sh.prompt_cases, hprompts⟩
  · rw [htext, List.map_cons, String.join_cons]
    simp [String.append_assoc]
  · rw [List.map_cons, String.join_cons, hjoin, hout]

/-- A program whose lines are still to come, the first of them to be added to the chunk that
waits. -/
theorem mirrors_converse (lines : List (List UInt8)) {line : List UInt8} (sh : Shell)
    (text : String) (errors : List ProgramError) (hkw : sh.session.keywords.Usable)
    (hlines : ∀ l ∈ line :: lines, 10 ∉ l)
    (hline : sh.pending = [] ∨ isBlank line = false)
    (h : Typable sh.session.keywords (extend (attach sh.pending line) lines))
    (hok : (sh.session.run (extend (attach sh.pending line) lines)).1 = .ok ()) :
    (sh.converse text errors (line :: lines)).Mirrors text errors sh.session
      (extend (attach sh.pending line) lines) (lines.length + 1) := by
  induction lines generalizing line sh text with
  | nil =>
      obtain ⟨history, htake⟩ := takeLine_of_typable sh hkw hline rfl h hok
      refine mirrors_cons htake (fun text => mirrors_nil _ text errors rfl) ?_ ?_ text
      · rw [Session.run_of_isBlank _ isBlank_nil]
        exact ⟨rfl, rfl, rfl⟩
      · rw [Session.run_of_isBlank _ isBlank_nil, Sink.textFrom_size, String.append_empty]
        rfl
  | cons line' lines ih =>
      have hlines' : ∀ l ∈ line' :: lines, 10 ∉ l :=
        fun l hl => hlines l (List.mem_cons_of_mem _ hl)
      have hsplit := extend_cons (attach sh.pending line) line' lines
      rw [hsplit] at h hok
      rcases h.cut hkw with ⟨hchunk, hbelow⟩ | ⟨hmore, k, ks, hkinds, hnewline, hend⟩
      · -- the chunk is done, and what is left is a program again
        obtain ⟨a, ha⟩ := hchunk.exists_parse
        obtain ⟨b, hb⟩ := hbelow.exists_parse
        obtain ⟨hok₁, hok₂, hruns⟩ := Session.run_joined hkw.ne_endOfText ha hb hok
        obtain ⟨history, htake⟩ := takeLine_of_typable sh hkw hline rfl hchunk hok₁
        have hkeywords := sh.session.keywords_run (attach sh.pending line)
        rw [hsplit]
        refine mirrors_cons htake (fun text' => ih ⟨_, [], history⟩ text' ?_ hlines' (.inl rfl) ?_ hok₂)
          hruns ?_ text
        · rw [hkeywords]
          exact hkw
        · rw [hkeywords]
          exact hbelow
        · rw [← hruns.1]
          exact Sink.textFrom_trans (sh.session.grows_run _) (Session.grows_run _ _)
      · -- the chunk waits, and the next line is not blank
        obtain ⟨-, he⟩ := Tokens.error?_of_joined hkw.ne_endOfText h.1
        have hblank : isBlank line' = false := by
          rw [← Bool.not_eq_true]
          intro hblank
          rcases head_of_isBlank hkw hblank (hlines' line' List.mem_cons_self) he hkinds with
            hk | hk
          · exact hnewline hk
          · exact hend hk
        have hne : attach sh.pending line ≠ [] := by
          intro hnil
          rw [hnil, needsMore_nil] at hmore
          cases hmore
        have hattach : extend (attach (attach sh.pending line) line') lines =
            extend (attach sh.pending line) (line' :: lines) := by
          rw [attach, if_neg hne]
          rfl
        have hrest (text' : String) := ih { sh with pending := attach sh.pending line } text' hkw
          hlines' (.inr hblank) (by rw [hattach, hsplit]; exact h) (by rw [hattach, hsplit]; exact hok)
        rw [hattach] at hrest
        exact mirrors_cons (takeLine_of_needsMore sh hline rfl hmore) hrest ⟨rfl, rfl, rfl⟩
          (String.empty_append).symm text

/-- A program typed line by line does what it does in one piece. -/
theorem converse_of_program (settings : Settings) (limits : Limits) (history : History)
    (lines : List (List UInt8)) (hlines : ∀ line ∈ lines, '\n'.toUInt8 ∉ line)
    (p : Grammar.Program)
    (hp : p.tokens =
      (Tokens.ofBytes (['\n'.toUInt8].intercalate lines) settings.reserved).list)
    (hfunctions : ∀ f, .function f ∈ p.items → ∃ c, f.body.closing? = some c ∧
      ∀ (i : Nat) (line : List UInt8), lines[i]? = some line →
        f.word.1.pos.row ≤ (i : Int) + 1 → (i : Int) + 1 ≤ c.brace.1.pos.row →
          isBlank line = false)
    (hok : ((Session.start settings.reserved limits (.ofRoom? none)).run
      (['\n'.toUInt8].intercalate lines)).1 = .ok ()) :
    ((start settings.reserved limits history).converse greeting [] lines).Mirrors greeting []
      (Session.start settings.reserved limits (.ofRoom? none))
      (['\n'.toUInt8].intercalate lines) lines.length := by
  cases lines with
  | nil => exact mirrors_nil _ greeting [] rfl
  | cons line lines =>
      have hkw := settings.usable_reserved
      rw [intercalate_eq_extend] at hp hok ⊢
      exact mirrors_converse lines (start settings.reserved limits history) greeting [] hkw hlines
        (.inl rfl) (typable_of_rows hkw hlines hp hfunctions) hok

theorem converse_of_program_twice :
    let lines := ["x = 21".toUTF8.toList, "func twice(n) \x7b".toUTF8.toList,
      "  return n + n".toUTF8.toList, "\x7d".toUTF8.toList, [], "print twice(x)".toUTF8.toList]
    let s := Session.start Settings.default.reserved Settings.default.limits (.ofRoom? none)
    (s.run (['\n'.toUInt8].intercalate lines)).1 = .ok () ∧
      ((start Settings.default.reserved Settings.default.limits .empty).converse greeting []
        lines).Mirrors greeting [] s (['\n'.toUInt8].intercalate lines) 6 := by
  intro lines s
  have hok : (s.run (['\n'.toUInt8].intercalate lines)).1 = .ok () := by decide +kernel
  let f : Grammar.Function := ⟨⟨⟨.funcWord, "func", ⟨2, 1⟩⟩, rfl⟩,
    ⟨⟨.symbol, "twice", ⟨2, 6⟩⟩, rfl⟩,
    ⟨⟨⟨.openParen, "(", ⟨2, 11⟩⟩, rfl⟩, ⟨⟨.symbol, "n", ⟨2, 12⟩⟩, rfl⟩, [],
      ⟨⟨.closeParen, ")", ⟨2, 13⟩⟩, rfl⟩⟩,
    ⟨⟨⟨.openBrace, "\x7b", ⟨2, 15⟩⟩, rfl⟩, [.newline ⟨⟨.newline, "\n", ⟨2, 16⟩⟩, rfl⟩],
      ⟨⟨.returnWord, "return", ⟨3, 3⟩⟩, rfl⟩,
      ⟨⟨⟨.name ⟨⟨.symbol, "n", ⟨3, 10⟩⟩, rfl⟩, []⟩, []⟩,
        [(⟨⟨.add, "+", ⟨3, 12⟩⟩, by decide⟩, ⟨⟨.name ⟨⟨.symbol, "n", ⟨3, 14⟩⟩, rfl⟩, []⟩, []⟩)]⟩,
      some ⟨[⟨⟨.newline, "\n", ⟨3, 15⟩⟩, rfl⟩], ⟨⟨.closeBrace, "\x7d", ⟨4, 1⟩⟩, rfl⟩⟩⟩⟩
  let p : Grammar.Program := ⟨[
    .line (.assign ⟨⟨.symbol, "x", ⟨1, 1⟩⟩, rfl⟩ ⟨⟨.assign, "=", ⟨1, 3⟩⟩, rfl⟩
      ⟨⟨⟨.integer ⟨⟨.integer, "21", ⟨1, 5⟩⟩, rfl⟩, []⟩, []⟩, []⟩),
    .line (.newline ⟨⟨.newline, "\n", ⟨1, 7⟩⟩, rfl⟩), .function f,
    .line (.newline ⟨⟨.newline, "\n", ⟨4, 2⟩⟩, rfl⟩),
    .line (.newline ⟨⟨.newline, "\n", ⟨5, 1⟩⟩, rfl⟩),
    .line (.print ⟨⟨.printWord, "print", ⟨6, 1⟩⟩, rfl⟩
      ⟨⟨⟨.call ⟨⟨.symbol, "twice", ⟨6, 7⟩⟩, rfl⟩
        ⟨⟨⟨.openParen, "(", ⟨6, 12⟩⟩, rfl⟩, ⟨⟨.symbol, "x", ⟨6, 13⟩⟩, rfl⟩, [],
          ⟨⟨.closeParen, ")", ⟨6, 14⟩⟩, rfl⟩⟩, []⟩, []⟩, []⟩)],
    ⟨⟨.endOfText, "", ⟨6, 15⟩⟩, rfl⟩⟩
  refine ⟨hok, converse_of_program Settings.default Settings.default.limits .empty lines
    (by decide +kernel) p (by decide +kernel) (fun g hg => ?_) hok⟩
  obtain rfl : g = f := by simpa [p] using hg
  refine ⟨_, rfl, fun i line hi hstart hend => ?_⟩
  -- rows two to four are the function's
  replace hstart : (2 : Int) ≤ i + 1 := hstart
  replace hend : (i : Int) + 1 ≤ 4 := hend
  obtain rfl | rfl | rfl : i = 1 ∨ i = 2 ∨ i = 3 := by omega
  all_goals
    cases hi
    decide +kernel

end Shell

end IntScript
