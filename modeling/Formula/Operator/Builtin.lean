import Formula.Operator.Registry

/-!
# The built-in operators

The operators that formulas use when no other registry is given.
-/

namespace Formula

/-- The built-in operators with their opcodes, numbers of operands, primitives and results. -/
def builtinOperators : List Operator :=
  [ .arithmetic "+" 0x01 2 "add" .promote,
    .arithmetic "-" 0x02 2 "sub" .promote,
    .arithmetic "-" 0x03 1 "neg" .promote,
    .arithmetic "*" 0x04 2 "mul" .promote,
    .arithmetic "/" 0x05 2 "div" .promote,
    .arithmetic "%" 0x06 2 "rem" .promote,
    .arithmetic "&" 0x07 2 "and" .int,
    .arithmetic "|" 0x08 2 "or" .int,
    .arithmetic "^" 0x09 2 "xor" .int,
    .arithmetic "^" 0x0a 1 "not" .int,
    .arithmetic "<<" 0x0b 2 "shl" .int,
    .arithmetic ">>" 0x0c 2 "sar" .int,
    .arithmetic ">>>" 0x0d 2 "shr" .int,
    .logical "&&" 0x20 "logical_and",
    .logical "||" 0x21 "logical_or",
    .arithmetic "=" 0x40 2 "eq" .bool,
    .arithmetic "==" 0x41 2 "eq" .bool,
    .arithmetic "!=" 0x42 2 "ne" .bool,
    .arithmetic "<" 0x43 2 "lt" .bool,
    .arithmetic "<=" 0x44 2 "le" .bool,
    .arithmetic ">" 0x45 2 "gt" .bool,
    .arithmetic ">=" 0x46 2 "ge" .bool,
    .arithmetic "cmpl" 0x47 2 "cmpl" .int,
    .arithmetic "cmpg" 0x48 2 "cmpg" .int,
    .arithmetic "->bool" 0x49 1 "to_bool" .bool,
    .arithmetic "!" 0x4a 1 "to_not_bool" .bool,
    .arithmetic "acos" 0x4b 1 "acos" .float,
    .arithmetic "asin" 0x4c 1 "asin" .float,
    .arithmetic "atan" 0x4d 1 "atan" .float,
    .arithmetic "atan2" 0x4e 2 "atan2" .float,
    .arithmetic "ceil" 0x4f 1 "ceil" .float,
    .arithmetic "cos" 0x50 1 "cos" .float,
    .arithmetic "cosh" 0x51 1 "cosh" .float,
    .arithmetic "exp" 0x52 1 "exp" .float,
    .arithmetic "floor" 0x53 1 "floor" .float,
    .arithmetic "log" 0x54 1 "log" .float,
    .arithmetic "log10" 0x55 1 "log10" .float,
    .arithmetic "pow" 0x56 2 "pow" .float,
    .arithmetic "**" 0x57 2 "pow" .float,
    .arithmetic "rint" 0x58 1 "rint" .float,
    .arithmetic "round" 0x59 1 "round" .float,
    .arithmetic "sin" 0x5a 1 "sin" .float,
    .arithmetic "sinh" 0x5b 1 "sinh" .float,
    .arithmetic "sqrt" 0x5c 1 "sqrt" .float,
    .arithmetic "tan" 0x5d 1 "tan" .float,
    .arithmetic "tanh" 0x5e 1 "tanh" .float,
    .arithmetic "trunc" 0x5f 1 "trunc" .float,
    .arithmetic "nan?" 0x60 1 "is_nan" .bool,
    .arithmetic "finite?" 0x61 1 "is_finite" .bool,
    .arithmetic "inf?" 0x62 1 "is_inf" .bool,
    .arithmetic "abs" 0x63 1 "abs" .promote,
    .arithmetic "min" 0x64 2 "min" .promote,
    .arithmetic "max" 0x65 2 "max" .promote,
    .arithmetic "sign" 0x66 1 "sign" .int,
    .intrinsic "len" 0x80 "str_len" [.string] .int,
    .intrinsic "index" 0x81 "str_index" [.string, .string] .int ]

/-- The registry of the built-in operators. -/
def Registry.builtin : Registry :=
  ⟨builtinOperators, by decide +kernel⟩

end Formula
