namespace CppEmission.Keyword

/-- The reserved words and alternative operator tokens of C++20. -/
def reserved : List String :=
  ["alignas", "alignof", "and", "and_eq", "asm", "auto", "bitand", "bitor", "bool", "break",
    "case", "catch", "char", "char8_t", "char16_t", "char32_t", "class", "compl", "concept",
    "const", "consteval", "constexpr", "constinit", "const_cast", "continue", "co_await",
    "co_return", "co_yield", "decltype", "default", "delete", "do", "double", "dynamic_cast",
    "else", "enum", "explicit", "export", "extern", "false", "float", "for", "friend", "goto",
    "if", "inline", "int", "long", "mutable", "namespace", "new", "noexcept", "not", "not_eq",
    "nullptr", "operator", "or", "or_eq", "private", "protected", "public", "register",
    "reinterpret_cast", "requires", "return", "short", "signed", "sizeof", "static",
    "static_assert", "static_cast", "struct", "switch", "template", "this", "thread_local",
    "throw", "true", "try", "typedef", "typeid", "typename", "union", "unsigned", "using",
    "virtual", "void", "volatile", "wchar_t", "while", "xor", "xor_eq"]

theorem reserved_spelling : ∀ word ∈ reserved,
    word.toList.all (fun c => c.isAlphanum || c == '_') ∧ word.toList.getLast? ≠ some '_' := by
  simp only [reserved, List.forall_mem_cons]
  simp

def isReserved (name : String) : Bool := reserved.contains name

def escape (name : String) : String := if isReserved name then name ++ "_" else name

theorem escape_of_not_isReserved {name : String} (h : isReserved name = false) :
    escape name = name := by simp [escape, h]

theorem escape_of_isReserved {name : String} (h : isReserved name = true) :
    escape name = name ++ "_" := by simp [escape, h]

end CppEmission.Keyword
