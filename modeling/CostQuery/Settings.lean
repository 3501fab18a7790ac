import CostQuery.Document.Decode

/-! Settings of the compiler and of the calls it serves. -/

namespace CostQuery

/-- Widest date windows of an analyze query. -/
structure RangeLimits where
  dailyMaxDays : Int := 31
  monthlyMaxMonths : Int := 12

/-- The table of cost records in the warehouse. -/
structure Warehouse where
  table : String := "cost"
  /-- The timestamp text that the billed date columns are cut from. -/
  billedAtColumn : String := "billed_at"
  /-- The coarse column of billed months. -/
  partitionColumn : String := "billed_partition"
  /-- Map columns whose values are numbers. -/
  numericPrefixes : List String := ["data"]
  decimalPrecision : Nat := 38
  decimalScale : Nat := 10
  minimalFields : List String :=
    ["cost_id", "provider", "region_code", "product", "usage_type", "cost", "billed_date"]
  limits : RangeLimits := {}

def Warehouse.isNumericRoot (w : Warehouse) (root : String) : Bool :=
  w.numericPrefixes.contains root

structure RetrySettings where
  maxAttempts : Nat := 3
  baseDelayMs : Nat := 200
  maxDelayMs : Nat := 5000

structure Settings where
  warehouse : Warehouse := {}
  retry : RetrySettings := {}

namespace RangeLimits

def ofNode? (format : Format) (n : Node) : Option RangeLimits := do
  match ← n.parts? format [["daily_max_days"], ["monthly_max_months"]] with
  | [days, months] =>
    return {
      dailyMaxDays := ← partOr 31 Node.toSigned? days
      monthlyMaxMonths := ← partOr 12 Node.toSigned? months }
  | _ => none

def toJson (limits : RangeLimits) : Json :=
  .obj [("daily_max_days", .int limits.dailyMaxDays),
    ("monthly_max_months", .int limits.monthlyMaxMonths)]

end RangeLimits

namespace Warehouse

def ofNode? (format : Format) (n : Node) : Option Warehouse := do
  match ← n.parts? format [["table"], ["billed_at_column"], ["partition_column"],
    ["numeric_prefixes"], ["decimal_precision"], ["decimal_scale"], ["minimal_fields"],
    ["limits"]] with
  | [table, billedAt, partition, numeric, precision, scale, minimal, limits] =>
    let byDefault : Warehouse := {}
    return {
      table := ← partOr byDefault.table Node.toText? table
      billedAtColumn := ← partOr byDefault.billedAtColumn Node.toText? billedAt
      partitionColumn := ← partOr byDefault.partitionColumn Node.toText? partition
      numericPrefixes :=
        ← partOr byDefault.numericPrefixes (Node.toList? Node.toText?) numeric
      decimalPrecision := ← partOr byDefault.decimalPrecision (Node.toNatBelow? 256) precision
      decimalScale := ← partOr byDefault.decimalScale (Node.toNatBelow? 256) scale
      minimalFields := ← partOr byDefault.minimalFields (Node.toList? Node.toText?) minimal
      limits := ← partOr byDefault.limits (RangeLimits.ofNode? format) limits }
  | _ => none

def toJson (w : Warehouse) : Json :=
  .obj [("table", .str w.table),
    ("billed_at_column", .str w.billedAtColumn),
    ("partition_column", .str w.partitionColumn),
    ("numeric_prefixes", .strings w.numericPrefixes),
    ("decimal_precision", .int w.decimalPrecision),
    ("decimal_scale", .int w.decimalScale),
    ("minimal_fields", .strings w.minimalFields),
    ("limits", w.limits.toJson)]

end Warehouse

namespace RetrySettings

def ofNode? (format : Format) (n : Node) : Option RetrySettings := do
  match ← n.parts? format [["max_attempts"], ["base_delay_ms"], ["max_delay_ms"]] with
  | [attempts, base, max] =>
    let byDefault : RetrySettings := {}
    return {
      maxAttempts := ← partOr byDefault.maxAttempts (Node.toNatBelow? (Nat.pow 2 32)) attempts
      baseDelayMs := ← partOr byDefault.baseDelayMs (Node.toNatBelow? (Nat.pow 2 64)) base
      maxDelayMs := ← partOr byDefault.maxDelayMs (Node.toNatBelow? (Nat.pow 2 64)) max }
  | _ => none

def toJson (r : RetrySettings) : Json :=
  .obj [("max_attempts", .int r.maxAttempts), ("base_delay_ms", .int r.baseDelayMs),
    ("max_delay_ms", .int r.maxDelayMs)]

end RetrySettings

namespace Settings

def ofNode? (format : Format) (n : Node) : Option Settings := do
  match ← n.parts? format [["warehouse"], ["retry"]] with
  | [warehouse, retry] =>
    return {
      warehouse := ← partOr {} (Warehouse.ofNode? format) warehouse
      retry := ← partOr {} (RetrySettings.ofNode? format) retry }
  | _ => none

def toJson (s : Settings) : Json :=
  .obj [("warehouse", s.warehouse.toJson), ("retry", s.retry.toJson)]

end Settings
end CostQuery
