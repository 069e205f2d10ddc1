import Reflowfy.KafkaDestination
import Reflowfy.DestinationIdentity
import Reflowfy.RecordValidation
import Reflowfy.RuntimeParams

namespace Reflowfy

open TransformationRunner

-- The types that a parameter of a request can have.
inductive ParamType
  | str | int | float | bool | list | dict
  deriving DecidableEq, Repr

namespace ParamType

def type_name : ParamType → String
  | str => "string"
  | int => "integer"
  | float => "number"
  | bool => "boolean"
  | list => "array"
  | dict => "object"

-- `_check_type`: a bool is no int, and an int is a float.
def check : ParamType → Value → Bool
  | bool, .bool _ => true
  | int, .int _ => true
  | float, .int _ => true
  | float, .float _ => true
  | str, .str _ => true
  | list, .list _ => true
  | dict, .dict _ => true
  | _, _ => false

end ParamType

-- `choices` is empty where there are none.
structure PipelineParameter where
  name : String
  required : Bool
  param_type : ParamType
  default : Value
  choices : List Value

-- What Python says of a value, and `==`.
variable (py : Python) (eq : Value → Value → Bool)

namespace PipelineParameter

-- `choices and value not in choices`.
def excludes (param : PipelineParameter) (value : Value) : Bool :=
  !param.choices.isEmpty && !param.choices.any (eq · value)

def validate (param : PipelineParameter) (value : Value) : Option String :=
  if value.isNone then
    if param.required then some ("Missing required parameter: " ++ param.name) else none
  else if param.param_type.check value = false then
    some ("Parameter '" ++ param.name ++ "' must be " ++ param.param_type.type_name ++ ", got " ++
      py.type_name value)
  else if param.excludes eq value then
    some ("Invalid value for " ++ param.name ++ ": '" ++ py.str value ++ "'. Must be one of: " ++
      py.str (.list param.choices))
  else none

-- One turn of `apply_defaults`.
def apply_default (runtime_params : Params) (param : PipelineParameter) : Params :=
  if (runtime_params param.name).isNone ∧ param.default.isNone = false then
    runtime_params.set param.name param.default
  else runtime_params

end PipelineParameter

-- `runtime_params.get(name)`.
def Params.get (runtime_params : Params) (name : String) : Value := (runtime_params name).getD .None

-- What an execution uses of a pipeline: its declarations and its plan. `define_jobs` may write
-- to the dict of params; the source is None if it returns None.
structure PipelineClass (S : Type) where
  name : String
  id_based : Bool
  define_parameters : List PipelineParameter
  define_jobs : Params → Except HookError (Option S) × Params

-- `_IDS_PARAMETER`.
def input_ids_parameter : PipelineParameter := ⟨"input_ids", true, .list, .None, []⟩

namespace PipelineClass

def ValueError (message : String) : HookError := .other ⟨"ValueError", message⟩

variable {S : Type} (pipeline : PipelineClass S)

def get_all_parameters : Except HookError (List PipelineParameter) :=
  if pipeline.id_based then
    if "input_ids" ∈ pipeline.define_parameters.map PipelineParameter.name then
      .error (ValueError ("Pipeline '" ++ pipeline.name ++
        "': Do not define 'input_ids' in define_parameters(). " ++
        "It is automatically injected by IdBasedPipeline."))
    else .ok (input_ids_parameter :: pipeline.define_parameters)
  else .ok pipeline.define_parameters

def apply_defaults (runtime_params : Params) : Except HookError Params :=
  pipeline.get_all_parameters.map fun parameters =>
    parameters.foldl PipelineParameter.apply_default runtime_params

-- What an ID-based pipeline checks beside its parameters.
def input_ids_errors (runtime_params : Params) : List String :=
  match runtime_params.get "input_ids" with
  | .None => []
  | .list [] => ["Parameter 'input_ids' must not be empty"]
  | .list _ => []
  | _ => ["Parameter 'input_ids' must be a list"]

def validate_parameters (runtime_params : Params) : Except HookError (List String) :=
  pipeline.get_all_parameters.map fun parameters =>
    parameters.filterMap (fun param => param.validate py eq (runtime_params.get param.name)) ++
      if pipeline.id_based then input_ids_errors runtime_params else []

-- The first half of `resolve`.
def checked_params (runtime_params : Params) : Except HookError Params :=
  match pipeline.apply_defaults runtime_params with
  | .error e => .error e
  | .ok params =>
      match pipeline.validate_parameters py eq params with
      | .error e => .error e
      | .ok [] => .ok params
      | .ok errors => .error (ValueError ("Invalid parameters: " ++ String.intercalate "; " errors))

end PipelineClass

end Reflowfy
