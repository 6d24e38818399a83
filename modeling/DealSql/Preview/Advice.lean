import DealSql.Calculation

/-!
# Advice

A note on how a calculation will behave in a report, where the level of the
report and the source of the values do not agree.
-/

namespace DealSql.Preview

/-- What a row of a source below the deal stands for. -/
def rowUnit : Source → String
  | .trancheBal => "tranche and cycle"
  | _ => "tranche"

/-- Advice on a field reported as it is. -/
def adviseField (f : ReportedField) : Option String :=
  if f.source.isTrancheScoped && f.level == .deal then
    let field := f.field?.getD "this field"
    let model := f.source.name
    some (s!"{model} fields have multiple rows per deal. Showing {model}.{field} in a " ++
      s!"deal-level report will repeat deal rows once per {rowUnit f.source}; consider a " ++
      "tranche-level report or an aggregation instead.")
  else none

/-- Advice on a statement that an administrator has written. -/
def adviseCustom (s : CustomSql) : String :=
  match s.level with
  | .deal => "Deal-level SQL must return one row per deal. Aggregate any " ++
      "tranche or balance columns and GROUP BY deal.dl_nbr."
  | .tranche => "Tranche-level SQL must return one row per deal and " ++
      "tranche. Join tranche on dl_nbr and GROUP BY deal.dl_nbr, " ++
      "tranche.tr_id when aggregating balances."

/-- Advice on an aggregation. -/
def adviseAggregation (a : Aggregation) : Option String :=
  match a.source, a.level with
  | .tranche, .tranche =>
    some ("Tranche-level calculations over Tranche fields can only be used in " ++
      "tranche-level reports. Use deal level if this value is also needed in deal reports.")
  | .tranche, .deal =>
    some "Tranche values will be aggregated across all tranches of each deal."
  | .trancheBal, .deal =>
    some ("TrancheBal values will be aggregated across all tranches of each deal " ++
      "for the reporting cycle.")
  | .deal, .tranche =>
    some ("Deal fields have one value per deal; at tranche level the same value " ++
      "repeats for every tranche of the deal.")
  | _, _ => none

/-- Advice on a calculation, where there is any to give. -/
def advise : Calculation → Option String
  | .aggregation a => adviseAggregation a
  | .field f => adviseField f
  | .custom s => some (adviseCustom s)

end DealSql.Preview
