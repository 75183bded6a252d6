/-! # The catalog of routines

Seventeen routines in five families. The routines of a duplicated family are
meant to compute the same function; those of `arithmetic` are meant to differ.
Every routine of a family takes arguments of the same shape.
-/

namespace RoutineCorpus

inductive Family where
  | filterDouble
  | sum
  | factorial
  | fibonacci
  | arithmetic
  deriving DecidableEq, Repr

/-- What a routine is applied to. -/
inductive Shape where
  | sequence
  | integer
  | pair
  deriving DecidableEq, Repr

inductive Kind where
  | function
  | method
  deriving DecidableEq, Repr

inductive Routine where
  | processData
  | transformData
  | filterAndDouble
  | dataProcessorProcess
  | dataProcessorTransform
  | numberProcessorProcessNumbers
  | dataHelperProcess
  | calculateSum
  | dataHelperSum
  | calculateFactorial
  | mathUtilsFactorial
  | calculateFibonacci
  | mathUtilsFibonacci
  | calculatorAdd
  | calculatorSubtract
  | calculatorMultiply
  | calculatorDivide
  deriving DecidableEq, Repr

def Shape.name : Shape → String
  | .sequence => "sequence"
  | .integer => "integer"
  | .pair => "pair"

def Kind.name : Kind → String
  | .function => "function"
  | .method => "method"

namespace Family

/-- The families in catalog order. -/
def all : List Family :=
  [.filterDouble, .sum, .factorial, .fibonacci, .arithmetic]

def name : Family → String
  | .filterDouble => "filter-double"
  | .sum => "sum"
  | .factorial => "factorial"
  | .fibonacci => "fibonacci"
  | .arithmetic => "arithmetic"

def ofName? (s : String) : Option Family :=
  all.find? (·.name == s)

def shape : Family → Shape
  | .filterDouble | .sum => .sequence
  | .factorial | .fibonacci => .integer
  | .arithmetic => .pair

/-- The routines of the family are meant to agree. -/
def duplicated : Family → Bool
  | .arithmetic => false
  | _ => true

end Family

namespace Routine

/-- The routines in catalog order. -/
def all : List Routine :=
  [.processData, .transformData, .filterAndDouble, .dataProcessorProcess,
    .dataProcessorTransform, .numberProcessorProcessNumbers, .dataHelperProcess,
    .calculateSum, .dataHelperSum, .calculateFactorial, .mathUtilsFactorial,
    .calculateFibonacci, .mathUtilsFibonacci, .calculatorAdd, .calculatorSubtract,
    .calculatorMultiply, .calculatorDivide]

def name : Routine → String
  | .processData => "process_data"
  | .transformData => "transform_data"
  | .filterAndDouble => "filter_and_double"
  | .dataProcessorProcess => "DataProcessor::process"
  | .dataProcessorTransform => "DataProcessor::transform"
  | .numberProcessorProcessNumbers => "NumberProcessor::process_numbers"
  | .dataHelperProcess => "DataHelper::process"
  | .calculateSum => "calculate_sum"
  | .dataHelperSum => "DataHelper::sum"
  | .calculateFactorial => "calculate_factorial"
  | .mathUtilsFactorial => "MathUtils::factorial"
  | .calculateFibonacci => "calculate_fibonacci"
  | .mathUtilsFibonacci => "MathUtils::fibonacci"
  | .calculatorAdd => "Calculator::add"
  | .calculatorSubtract => "Calculator::subtract"
  | .calculatorMultiply => "Calculator::multiply"
  | .calculatorDivide => "Calculator::divide"

def ofName? (s : String) : Option Routine :=
  all.find? (·.name == s)

def family : Routine → Family
  | .processData | .transformData | .filterAndDouble | .dataProcessorProcess
  | .dataProcessorTransform | .numberProcessorProcessNumbers | .dataHelperProcess => .filterDouble
  | .calculateSum | .dataHelperSum => .sum
  | .calculateFactorial | .mathUtilsFactorial => .factorial
  | .calculateFibonacci | .mathUtilsFibonacci => .fibonacci
  | .calculatorAdd | .calculatorSubtract | .calculatorMultiply | .calculatorDivide => .arithmetic

def kind : Routine → Kind
  | .processData | .transformData | .filterAndDouble | .calculateSum | .calculateFactorial
  | .calculateFibonacci => .function
  | _ => .method

def shape (r : Routine) : Shape := r.family.shape

theorem mem_all (r : Routine) : r ∈ all := by
  cases r <;> decide

theorem ofName?_name (r : Routine) : ofName? r.name = some r := by
  cases r <;> decide

theorem name_of_ofName? {s : String} {r : Routine} (h : ofName? s = some r) : r.name = s := by
  simpa using List.find?_some h

theorem eq_of_name_eq {r s : Routine} (h : r.name = s.name) : r = s := by
  have hn := congrArg ofName? h
  rw [ofName?_name, ofName?_name] at hn
  exact Option.some.inj hn

end Routine

namespace Family

/-- The routines of a family, in catalog order. -/
def members (f : Family) : List Routine :=
  Routine.all.filter (·.family = f)

theorem mem_members {f : Family} {r : Routine} : r ∈ f.members ↔ r.family = f := by
  simp [members, Routine.mem_all]

theorem ofName?_name (f : Family) : ofName? f.name = some f := by
  cases f <;> decide

theorem name_of_ofName? {s : String} {f : Family} (h : ofName? s = some f) : f.name = s := by
  simpa using List.find?_some h

theorem eq_of_name_eq {f g : Family} (h : f.name = g.name) : f = g := by
  have hn := congrArg ofName? h
  rw [ofName?_name, ofName?_name] at hn
  exact Option.some.inj hn

end Family

end RoutineCorpus
