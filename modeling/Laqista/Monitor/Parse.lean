import Laqista.Lib.Hex
import Laqista.Lib.Keyed
import Laqista.Lib.Parser
import Laqista.Monitor.Radeon

/-! # The lines of radeontop

`metricsLine` reads the time of the sample and a list of utilisations, each a name with a percentage
or with a bare hexadecimal id. A percentage is kept as its integer part and its hundredths, and
further digits are dropped; the names of `RadeonMetrics` are then looked up. -/

namespace Laqista.Monitor

open Laqista.Lib Laqista.Lib.Parser

/-- An integer part and hundredths. -/
structure Fraction where
  int : ℕ
  frac : ℕ
  deriving DecidableEq, Repr

/-- `Into<f64>`. -/
def Fraction.toF64 (f : Fraction) : ℚ := f.int + f.frac * (1 / 100)

inductive AbsoluteUtilization where
  | none
  | mb (f : Fraction)
  | ghz (f : Fraction)
  deriving DecidableEq, Repr

inductive Utilization where
  | id (id : ℕ)
  | percent (ratio : Fraction) (abs : AbsoluteUtilization)
  deriving DecidableEq, Repr

/-- `ResourceUtilization` of the parser. -/
structure NamedUtilization where
  name : String
  util : Utilization
  deriving DecidableEq, Repr

/-- `HashMap<String, ResourceUtilization>`. -/
abbrev UtilizationMap := Keyed NamedUtilization.name

inductive MetricsParseError where
  | timestamp (secs : ℤ) (nsecs : ℕ)
  /-- The text of a `ParseIntError`. -/
  | int (err : String)
  /-- The message names the key and prints the map. -/
  | keyError (key : String) (map : UtilizationMap)
  | notHeaderLine
  | nom (input : List Char) (kind : ErrorKind)

instance metricsParseError : ParseError MetricsParseError := ⟨.nom⟩

abbrev P := Parser MetricsParseError

def space : P Unit := tag " "

def dot : P Unit := tag "."

/-! ### Numbers -/

/-- The first two digits after the dot. -/
def fractionalPart : P ℕ := do
  let fracPart ← digit1
  let num ← onInput (unsigned (2 ^ 64)) fracPart
  match fracPart.length with
  | 1 => return num * 10
  | 2 => return num
  | 3 => return num / 10
  | _ => panicWith ("internal error: entered unreachable code: " ++
      "fractional part must be 1 or 2 characters. got " ++ String.ofList fracPart)

def fraction : P Fraction := do
  let int ← unsigned (2 ^ 64)
  dot
  let frac ← fractionalPart
  return ⟨int, frac⟩

def isHexDigit (c : Char) : Bool := (Hex.charValue c).isSome

def hex : P ℕ := do
  let value ← takeWhile1 .takeWhile1 isHexDigit
  match Hex.hexValue value with
  | some n =>
    if n < 2 ^ 64 then return n else fail (.int "number too large to fit in target type")
  | none => fail (.int "invalid digit found in string")

/-! ### Utilisations -/

/-- `absolute_utilization_mb` and `absolute_utilization_ghz`: a number with its unit. -/
def absoluteIn (unit : String) (make : Fraction → AbsoluteUtilization) : P AbsoluteUtilization := do
  space
  let value ← fraction
  tag unit
  return make value

def absoluteUtilizationMb : P AbsoluteUtilization := absoluteIn "mb" .mb

def absoluteUtilizationGhz : P AbsoluteUtilization := absoluteIn "ghz" .ghz

def absoluteUtilizationNone : P AbsoluteUtilization := return .none

def absoluteUtilization : P AbsoluteUtilization :=
  alt absoluteUtilizationMb (alt absoluteUtilizationGhz absoluteUtilizationNone)

def utilizationPercent : P Utilization := do
  let ratio ← fraction
  tag "%"
  let abs ← absoluteUtilization
  return .percent ratio abs

def utilizationId : P Utilization := do
  let id ← hex
  return .id id

def utilization : P Utilization := alt utilizationPercent utilizationId

/-- `resource_utilzation`. -/
def resourceUtilization : P NamedUtilization := do
  let name ← alpha1
  space
  let util ← utilization
  return ⟨String.ofList name, util⟩

/-- Of several entries with one name, the last one stays. -/
def utilizationMap : P UtilizationMap := do
  let list ← separatedList1 (tag ", ") resourceUtilization
  return Keyed.ofList list

/-! ### A line -/

def isLf (c : Char) : Bool := c = '\n'

def nextline : P (List Char) := takeTill isLf

def headerLine : P (List Char) := fun input =>
  if "Dumping to".toList.isPrefixOf input then nextline input else .error .notHeaderLine

/-- The digits after the dot are read as a number of nanoseconds. -/
def timestamp : P DateTime := do
  let secs ← signed (2 ^ 63)
  dot
  let nsecs ← unsigned (2 ^ 32)
  match DateTime.fromTimestamp secs nsecs with
  | some dt => return dt
  | none => fail (.timestamp secs nsecs)

/-- `get_key!`. -/
def getKey (map : UtilizationMap) (key : String) : P ℚ :=
  match map.lookup key with
  | none => fail (.keyError key map)
  | some value =>
    match value.util with
    | .id _ => panicWith "not implemented: id is not supported"
    | .percent ratio _ => return ratio.toF64

def radeonFromMap (map : UtilizationMap) (timestamp : DateTime) : P RadeonMetrics := do
  let gpu ← getKey map "gpu"
  let ee ← getKey map "ee"
  let vgt ← getKey map "vgt"
  let ta ← getKey map "ta"
  let sx ← getKey map "sx"
  let sh ← getKey map "sh"
  let spi ← getKey map "spi"
  let sc ← getKey map "sc"
  let pa ← getKey map "pa"
  let db ← getKey map "db"
  let cb ← getKey map "cb"
  let vram ← getKey map "vram"
  let gtt ← getKey map "gtt"
  return { timestamp, gpu, ee, vgt, ta, sx, sh, spi, sc, pa, db, cb, vram, gtt }

def metricsLine : P RadeonMetrics := do
  let ts ← timestamp
  tag ": "
  let map ← utilizationMap
  radeonFromMap map ts

end Laqista.Monitor
