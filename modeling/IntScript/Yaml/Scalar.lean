import IntScript.Text.Base64
import IntScript.Text.Utf8
import IntScript.Yaml.Double
import IntScript.Yaml.Problem
import IntScript.Yaml.Timestamp

/-!
# Scalars

What a scalar stands for: nothing, a truth value, a number, a point in time, or a text. Numbers may be
separated by underscores. A whole number has a base of 10, or 16, 8 or 2 after `0x`, `0o` or `0b`, or
8 after a plain `0`. One that needs more than 64 bits is read in double precision, as every number
with a point or an exponent is. What a scalar stands for has a tag, and a tag written in front of it
has to agree with that.
-/

namespace IntScript.Yaml

inductive Resolved where
  | null
  | bool (b : Bool)
  | int (n : Int)
  | float (d : Double)
  | time
  | text (s : String)
  deriving DecidableEq, Repr

def Resolved.tag : Resolved → String
  | .null => "!!null"
  | .bool _ => "!!bool"
  | .int _ => "!!int"
  | .float _ => "!!float"
  | .time => "!!timestamp"
  | .text _ => "!!str"

namespace Scalar

/-- The value of a digit of a base up to 16. -/
def digit? (base : Nat) (c : Char) : Option Nat :=
  let n :=
    if '0' ≤ c ∧ c ≤ '9' then some (c.toNat - '0'.toNat)
    else if 'a' ≤ c ∧ c ≤ 'f' then some (c.toNat - 'a'.toNat + 10)
    else if 'A' ≤ c ∧ c ≤ 'F' then some (c.toNat - 'A'.toNat + 10)
    else none
  n.filter (· < base)

/-- The number that digits of a base stand for, `acc` being that of the digits before them. -/
def digits? (base acc : Nat) : List Char → Option Nat
  | [] => some acc
  | c :: cs =>
    match digit? base c with
    | some d => digits? base (acc * base + d) cs
    | none => none

/-- A whole number without sign. -/
def natural? : List Char → Option Nat
  | [] => none
  | '0' :: 'x' :: c :: cs | '0' :: 'X' :: c :: cs => digits? 16 0 (c :: cs)
  | '0' :: 'o' :: c :: cs | '0' :: 'O' :: c :: cs => digits? 8 0 (c :: cs)
  | '0' :: 'b' :: c :: cs | '0' :: 'B' :: c :: cs => digits? 2 0 (c :: cs)
  | '0' :: cs => digits? 8 0 cs
  | cs => digits? 10 0 cs

/-- A whole number, if it takes 64 bits: with its sign, or without one and unsigned. -/
def whole? (cs : List Char) : Option Int :=
  match cs with
  | '-' :: cs => (natural? cs).bind fun n => if n ≤ 1 <<< 63 then some (-n) else none
  | '+' :: cs => (natural? cs).bind fun n => if n < 1 <<< 63 then some n else none
  | cs => (natural? cs).bind fun n => if n < 1 <<< 64 then some n else none

/-- Digits behind a sign, if they take 64 bits. -/
def signed? (base : Nat) (sign : Char) (cs : List Char) : Option Int :=
  (digits? base 0 cs).bind fun n =>
    if sign = '-' ∧ n ≤ 1 <<< 63 then some (-n)
    else if sign = '+' ∧ n < 1 <<< 63 then some n
    else none

/-- A whole number whose sign stands behind the mark of its base. -/
def markedWhole? : List Char → Option Int
  | '0' :: 'b' :: sign :: c :: cs => signed? 2 sign (c :: cs)
  | '0' :: 'o' :: sign :: c :: cs => signed? 8 sign (c :: cs)
  | _ => none

/-- The exponent after the digits of a number, nothing meaning zero. -/
def exponent? : List Char → Option Int
  | [] => some 0
  | c :: cs => if c = 'e' ∨ c = 'E' then Text.Decimal.int? cs else none

/-- A number with a point or an exponent or both, without sign. -/
def unsigned? (negative : Bool) (cs : List Char) : Option Double :=
  let front := cs.takeWhile Text.Decimal.isDigit
  let rest := cs.dropWhile Text.Decimal.isDigit
  let (back, rest) :=
    match rest with
    | '.' :: rest => (rest.takeWhile Text.Decimal.isDigit, rest.dropWhile Text.Decimal.isDigit)
    | rest => ([], rest)
  if front = [] ∧ back = [] then none
  else
    (exponent? rest).bind fun e =>
      Double.ofDecimal? negative (Text.Decimal.value (front ++ back)) (e - back.length)

/-- A number with a point or an exponent or both. -/
def decimal? : List Char → Option Double
  | '-' :: cs => unsigned? true cs
  | '+' :: cs => unsigned? false cs
  | cs => unsigned? false cs

/-- The words that stand for a value. -/
def word? (s : String) : Option Resolved :=
  if s ∈ ["", "~", "null", "Null", "NULL"] then some .null
  else if s ∈ ["true", "True", "TRUE"] then some (.bool true)
  else if s ∈ ["false", "False", "FALSE"] then some (.bool false)
  else if s ∈ [".nan", ".NaN", ".NAN"] then some (.float .nan)
  else if s ∈ [".inf", ".Inf", ".INF", "+.inf", "+.Inf", "+.INF"] then
    some (.float (.infinite false))
  else if s ∈ ["-.inf", "-.Inf", "-.INF"] then some (.float (.infinite true))
  else none

/-- Does every underscore stand between two digits? `digit` says whether a digit stands in front. -/
def separates (digit : Bool) : List Char → Bool
  | [] => true
  | '_' :: c :: cs => digit && Text.Decimal.isDigit c && separates true cs
  | ['_'] => false
  | c :: cs => separates (Text.Decimal.isDigit c) cs

/-- What a text that starts like a number stands for. -/
def number (mayBeTime : Bool) (s : String) : Resolved :=
  if mayBeTime && Timestamp.isTimestamp s.toList then .time
  else
    let plain := s.toList.filter (· ≠ '_')
    match whole? plain, decimal? plain, markedWhole? plain with
    | some n, _, _ => .int n
    | none, some d, _ => .float d
    | none, none, some n => .int n
    | none, none, none => .text s

/-- What a text that starts with a point stands for. -/
def fraction (s : String) : Resolved :=
  if separates false s.toList then
    match decimal? (s.toList.filter (· ≠ '_')) with
    | some d => .float d
    | none => .text s
  else .text s

/-- What a text stands for by its form. -/
def byForm (mayBeTime : Bool) (s : String) : Resolved :=
  match word? s with
  | some r => r
  | none =>
    match s.toList.head? with
    | some c =>
      if c = '.' then fraction s
      else if c = '+' ∨ c = '-' ∨ Text.Decimal.isDigit c then number mayBeTime s
      else .text s
    | none => .text s

/-- What a plain scalar without a tag stands for. -/
def resolve (s : String) : Resolved := byForm true s

/-- What a scalar with a tag stands for. Only some tags ask for a form of the text; a whole number may
be given for one in double precision. -/
def read (tag s : String) : Except Problem Resolved :=
  if tag = "!!binary" then
    match Text.Base64.decode? s with
    | some bs => .ok (.text (Text.Utf8.text bs))
    | none => .error .base64
  else if tag ∈ ["!!bool", "!!int", "!!float", "!!null", "!!timestamp"] then
    let r := byForm (tag = "!!timestamp") s
    if r.tag = tag then .ok r
    else
      match tag, r with
      | "!!float", .int n =>
        if n ≤ Int64.maxValue.toInt then .ok (.float (Double.ofInt n))
        else .error (.tagMismatch r.tag s tag)
      | _, _ => .error (.tagMismatch r.tag s tag)
  else .ok (.text s)

end Scalar

end IntScript.Yaml
