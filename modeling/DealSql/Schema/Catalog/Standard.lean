import DealSql.Schema.Catalog

/-!
# The standard catalog

The sources, functions and levels that are known where no catalog is given.
-/

namespace DealSql.Catalog

/-- A field without a description. -/
def field (name label : String) (type : FieldType) (nullable : Bool) : FieldEntry :=
  { name, label, type, description := none, nullable }

/-- The deals. -/
def deals : SourceEntry :=
  { source := .deal
    label := "Deal"
    description := "One row per securitization deal"
    fields :=
      [field "dl_nbr" "Deal Number" .integer false,
       field "issr_cde" "Issuer Code" .string false,
       field "cdi_file_nme" "CDI File Name" .string true,
       field "CDB_cdi_file_nme" "CDB CDI File Name" .string true,
       field "dl_closing_dte" "Closing Date" .date true] }

/-- The tranches of the deals. -/
def tranches : SourceEntry :=
  { source := .tranche
    label := "Tranche"
    description := "One row per tranche of a deal"
    fields :=
      [field "dl_nbr" "Deal Number" .integer false,
       field "tr_id" "Tranche ID" .string false,
       field "tr_cusip_id" "CUSIP" .string true,
       field "tr_orig_bal_amt" "Original Balance" .currency true,
       field "tr_stated_mat_dte" "Stated Maturity" .date true] }

/-- The balances of the tranches by cycle. -/
def trancheBalances : SourceEntry :=
  { source := .trancheBal
    label := "Tranche Balance"
    description := "One row per tranche per reporting cycle"
    fields :=
      [field "dl_nbr" "Deal Number" .integer false,
       field "tr_id" "Tranche ID" .string false,
       field "cycle_cde" "Cycle Code" .integer false,
       field "tr_end_bal_amt" "Ending Balance" .currency true,
       field "tr_prin_rel_ls_amt" "Principal Release Loss" .currency true,
       field "tr_pass_thru_rte" "Pass Through Rate" .percentage true,
       field "tr_accrl_days" "Accrual Days" .integer true,
       field "tr_int_dstrb_amt" "Interest Distribution" .currency true,
       field "tr_prin_dstrb_amt" "Principal Distribution" .currency true,
       field "tr_int_accrl_amt" "Interest Accrual" .currency true,
       field "tr_int_shtfl_amt" "Interest Shortfall" .currency true] }

/-- A function of one field. -/
def unweighted (function : Function) (label description : String) (numericOnly : Bool) :
    FunctionEntry :=
  { function, label, description, requiresWeight := false, numericOnly }

/-- The catalog that is used where none is given. -/
def standard : Catalog :=
  { sources := [deals, tranches, trancheBalances]
    functions :=
      [unweighted .sum "Sum" "Total of all values" true,
       unweighted .avg "Average" "Arithmetic mean" true,
       unweighted .count "Count" "Number of non-null values" false,
       unweighted .min "Minimum" "Smallest value" false,
       unweighted .max "Maximum" "Largest value" false,
       { function := .weightedAvg
         label := "Weighted Average"
         description := "SUM(value * weight) / SUM(weight), NULL when weights sum to zero"
         requiresWeight := true
         numericOnly := true }]
    levels :=
      [{ level := .deal
         label := "Deal Level"
         description := "One result row per deal" },
       { level := .tranche
         label := "Tranche Level"
         description := "One result row per deal and tranche" }] }

/-- The standard catalog lists nothing twice. -/
theorem repetition?_standard : repetition? standard = none := by decide

end DealSql.Catalog
