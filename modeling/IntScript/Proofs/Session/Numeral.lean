import IntScript.Proofs.Machine.Failure
import IntScript.Proofs.Machine.Output
import IntScript.Proofs.Machine.Polynomial
import IntScript.Proofs.Session.History
import IntScript.Proofs.Text.Decimal
import IntScript.Proofs.Token.Partition

/-!
# Numerals from text to output

A numeral goes a long way before it is seen again: it is cut out of the text as a run of digits of
any length, becomes the token of a leaf, is read as a 64-bit value if there is one, and is written
out anew.

Main statement: what comes out is the numeral itself without the zeros in front, up to `2 ^ 63 - 1`;
a greater one is refused where it stands, and quoted in full (`Session.run_print_numeral`).
-/

namespace IntScript

/-! ## The text -/

/-- The tokens of a program that prints a numeral. -/
def Tokens.printing (numeral : String) : Tokens :=
  ⟨[⟨.printWord, "print", ⟨1, 1⟩⟩, ⟨.integer, numeral, ⟨1, 7⟩⟩,
    ⟨.endOfText, "", (Position.mk 1 7).advance numeral.length⟩], none⟩

/-- The tree of a program that prints a numeral. -/
def Tree.printing (numeral : String) : Tree :=
  .node .root .nowhere
    [.node .print ⟨.printWord, "print", ⟨1, 1⟩⟩ [.leaf .integer ⟨.integer, numeral, ⟨1, 7⟩⟩]]

section

variable {d : String} (hne : d.toList ≠ []) (hd : ∀ c ∈ d.toList, Text.Decimal.isDigit c = true)

include hne hd

open Scanner in
theorem Tokens.ofBytes_printing :
    Tokens.ofBytes (Text.Utf8.bytes ("print " ++ d)) .standard = .printing d := by
  have hstart : Scanner.ofBytes (Text.Utf8.bytes ("print " ++ d)) .standard =
      ⟨"print".toList ++ ' ' :: d.toList, .start, .standard⟩ := by
    rw [Scanner.ofBytes, Text.Utf8.bytes, Text.Utf8.decode_encode, String.toList_append]
    rfl
  have hword : Run.word.Longest [] "print".toList (' ' :: d.toList) := by
    refine ⟨by decide, List.all_eq_true.mp (by decide +kernel), ?_, ?_⟩
    · intro c hc
      cases hc
    · intro c hc
      cases hc
      exact Run.word.has_eq_false_of_isGap rfl
  have hnumber : Run.number.Longest [] d.toList [] := by
    refine ⟨hne, hd, ?_, ?_⟩
    · intro c hc
      cases hc
    · intro c hc
      cases hc
  have hprint : next ⟨"print".toList ++ ' ' :: d.toList, .start, .standard⟩ =
      (.ok ⟨.printWord, "print", ⟨1, 1⟩⟩, ⟨' ' :: d.toList, ⟨1, 6⟩, .standard⟩) :=
    hword.next_eq .start .standard
  have hnumeral : next ⟨' ' :: d.toList, ⟨1, 6⟩, .standard⟩ =
      (.ok ⟨.integer, d, ⟨1, 7⟩⟩, ⟨[], (Position.mk 1 7).advance d.length, .standard⟩) := by
    have hgap := next_followedBy_end (s := ⟨[' '], ⟨1, 6⟩, .standard⟩) d.toList rfl
    have hnext := hnumber.next_eq ⟨1, 7⟩ .standard
    rw [List.append_nil, String.ofList_toList, String.length_toList] at hnext
    exact hgap.trans hnext
  rw [Tokens.ofBytes, hstart, drain_of_token hprint nofun, drain_of_token hnumeral nofun,
    drain_of_endOfText (t := ⟨.endOfText, "", _⟩) rfl rfl]
  simp only [printing, Position.advance]
  rfl

theorem parse_printing :
    parse (Text.Utf8.bytes ("print " ++ d)) .standard = .ok (.printing d) := by
  let numeral : Grammar.Atom := .integer ⟨⟨.integer, d, ⟨1, 7⟩⟩, rfl⟩
  let line : Grammar.Line :=
    .print ⟨⟨.printWord, "print", ⟨1, 1⟩⟩, rfl⟩ ⟨⟨⟨numeral, []⟩, []⟩, []⟩
  let program : Grammar.Program :=
    ⟨[.line line], ⟨⟨.endOfText, "", (Position.mk 1 7).advance d.length⟩, rfl⟩⟩
  rw [parse_eq_parse, Tokens.ofBytes_printing hne hd]
  exact program.parse_tokens [] none

end

/-! ## The run -/

namespace Action

theorem run_numeral_of_none {t : Token} (h : Text.Decimal.int64? t.literal = none) (m : Machine) :
    (numeral t).run m = (.error (.eval ⟨.invalidInteger t.literal, t.pos⟩), m) := by
  rw [numeral, h]
  rfl

theorem run_print_of_unlimited {m : Machine} (h : m.sink.room? = none) (v : Int64) :
    (print v).run m =
      (.ok (), { m with
        sink := { m.sink with lines := m.sink.lines.push (Text.Decimal.ofInt64 v) } }) := by
  rw [print, run_get_bind, Sink.write_of_unlimited h]
  rfl

end Action

namespace Machine

open IntScript.Action

theorem execute_printing (m : Machine) (limits : Limits) (d : String) :
    m.execute limits (.printing d) = (numeral ⟨.integer, d, ⟨1, 7⟩⟩ >>= print).run m := by
  rw [Tree.printing, execute_root, statements, statements, statement_print _ rfl]
  exact congrArg (fun act : Action Unit => act.run m) (bind_pure_unit (m := Action))

theorem execute_printing_of_some {m : Machine} (hroom : m.sink.room? = none) (limits : Limits)
    {d : String} {k : Int} (h : Text.Decimal.int? d.toList = some k) (hlower : -2 ^ 63 ≤ k)
    (hupper : k < 2 ^ 63) :
    m.execute limits (.printing d) =
      (.ok (), { m with
        sink := { m.sink with lines := m.sink.lines.push (Text.Decimal.ofInt k) } }) := by
  have hnumeral := run_numeral_of_some (t := ⟨.integer, d, ⟨1, 7⟩⟩) h hlower hupper m
  rw [execute_printing, run_bind_of_ok hnumeral, run_print_of_unlimited hroom,
    Text.Decimal.ofInt64, Int64.toInt_ofInt_of_le hlower hupper]

theorem execute_printing_of_none (m : Machine) (limits : Limits) {d : String}
    (h : Text.Decimal.int64? d = none) :
    m.execute limits (.printing d) = (.error (.eval ⟨.invalidInteger d, ⟨1, 7⟩⟩), m) := by
  have hnumeral := run_numeral_of_none (t := ⟨.integer, d, ⟨1, 7⟩⟩) h m
  rw [execute_printing, run_bind_of_error hnumeral]

end Machine

/-! ## Main statement -/

namespace Session

/-- A numeral of any length is printed without its zeros in front, or refused if it is too large. -/
theorem run_print_numeral {d : String} (hne : d ≠ "")
    (hd : ∀ c ∈ d.toList, Text.Decimal.isDigit c = true) (limits : Limits) :
    let n := Nat.ofDigitChars 10 d.toList 0
    let r := (start .standard limits (.ofRoom? none)).run (Text.Utf8.bytes ("print " ++ d))
    (n ≤ 2 ^ 63 - 1 →
      r.1 = .ok () ∧ r.2.machine.sink.text = n.repr ++ "\n" ∧
        n.repr.toList = Text.Decimal.significant d.toList) ∧
    (2 ^ 63 - 1 < n →
      r.1 = .error (.run (.eval ⟨.invalidInteger d, ⟨1, 7⟩⟩)) ∧ r.2.machine.sink.text = "") := by
  intro n r
  have hdigits : d.toList ≠ [] := by rwa [ne_eq, String.toList_eq_nil_iff]
  have hvalue : Text.Decimal.value d.toList = n := Text.Decimal.value_eq_ofDigitChars _
  have hread : Text.Decimal.int? d.toList = some (n : Int) := by
    rw [Text.Decimal.int?_of_digits hd, Text.Decimal.nat?_of_digits hdigits hd, hvalue]
    rfl
  have hroom : (Machine.ofSink (.ofRoom? none)).sink.room? = none := rfl
  have hr : r = ((((Machine.ofSink (.ofRoom? none)).execute limits (.printing d)).1).mapError .run,
      ⟨.standard, limits, ((Machine.ofSink (.ofRoom? none)).execute limits (.printing d)).2⟩) :=
    run_of_parse (parse_printing hdigits hd)
  constructor
  · intro hn
    rw [hr, Machine.execute_printing_of_some hroom limits hread (by omega) (by omega)]
    refine ⟨rfl, ?_, ?_⟩
    · change "" ++ n.repr ++ "\n" = n.repr ++ "\n"
      rw [String.empty_append]
    · rw [← hvalue]
      exact Text.Decimal.repr_value hd
  · intro hn
    have hnone : Text.Decimal.int64? d = none := by
      have hover : ¬ (n : Int) ≤ Int64.maxValue.toInt := by
        rw [Int64.toInt_maxValue]
        omega
      rw [Text.Decimal.int64?, hread, Option.bind_some, Text.Decimal.toInt64?,
        if_neg fun h => hover h.2]
    rw [hr, Machine.execute_printing_of_none _ limits hnone]
    exact ⟨rfl, rfl⟩

/-- The greatest numeral that is printed, with zeros in front, and the next one. -/
theorem run_print_numeral_bounds :
    let run (d : String) :=
      (start .standard ⟨256, true⟩ (.ofRoom? none)).run (Text.Utf8.bytes ("print " ++ d))
    (∀ c ∈ "0009223372036854775807".toList, Text.Decimal.isDigit c = true) ∧
      (run "0009223372036854775807").1 = .ok () ∧
      (run "0009223372036854775807").2.machine.sink.text = "9223372036854775807\n" ∧
      (∀ c ∈ "9223372036854775808".toList, Text.Decimal.isDigit c = true) ∧
      (run "9223372036854775808").1 =
        .error (.run (.eval ⟨.invalidInteger "9223372036854775808", ⟨1, 7⟩⟩)) ∧
      (run "9223372036854775808").2.machine.sink.text = "" := by
  intro run
  have hgreatest : ∀ c ∈ "0009223372036854775807".toList, Text.Decimal.isDigit c = true :=
    List.all_eq_true.mp (by decide)
  have hnext : ∀ c ∈ "9223372036854775808".toList, Text.Decimal.isDigit c = true :=
    List.all_eq_true.mp (by decide)
  obtain ⟨hok, -⟩ := run_print_numeral (by decide) hgreatest ⟨256, true⟩
  obtain ⟨-, herror⟩ := run_print_numeral (by decide) hnext ⟨256, true⟩
  obtain ⟨hok, htext, -⟩ := hok (by decide)
  obtain ⟨herror, hnone⟩ := herror (by decide)
  exact ⟨hgreatest, hok, htext, hnext, herror, hnone⟩

end Session

end IntScript
