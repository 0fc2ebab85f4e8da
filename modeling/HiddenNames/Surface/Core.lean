/-!
The file that every program with generated surfaces shares: the marker type whose extension members
return names, and the attributes that ask for a surface.
-/

namespace HiddenNames

def coreHintName : String := "Nameof.Core.g.cs"

def coreLines : List String :=
  ["// <auto-generated/>",
   "#nullable enable",
   "",
   "namespace Nameof",
   "\x7b",
   "    /// <summary>",
   "    /// Auto-generated marker type; extension members on nameof&lt;T&gt; return " ++
     "member names of T.",
   "    /// </summary>",
   "    public static class nameof<T>",
   "    \x7b",
   "    \x7d",
   "",
   "    /// <summary>",
   "    /// Auto-generated visibility option for generated name accessors.",
   "    /// </summary>",
   "    internal enum NameofAccessModifier",
   "    \x7b",
   "        Public = 0,",
   "        Internal = 1,",
   "    \x7d",
   "",
   "    /// <summary>",
   "    /// Auto-generated attribute requesting name accessors for a type.",
   "    /// </summary>",
   "    [global::System.AttributeUsage(global::System.AttributeTargets.Assembly | " ++
     "global::System.AttributeTargets.Class | global::System.AttributeTargets.Struct, " ++
     "AllowMultiple = true)]",
   "    internal sealed class GenerateNameofAttribute : global::System.Attribute",
   "    \x7b",
   "        public GenerateNameofAttribute() \x7b \x7d",
   "        public GenerateNameofAttribute(NameofAccessModifier accessModifier) \x7b \x7d",
   "        public GenerateNameofAttribute(global::System.Type type) \x7b \x7d",
   "        public GenerateNameofAttribute(global::System.Type type, " ++
     "NameofAccessModifier accessModifier) \x7b \x7d",
   "        public GenerateNameofAttribute(string fullTypeName, " ++
     "global::System.Type assemblyOf) \x7b \x7d",
   "        public GenerateNameofAttribute(string fullTypeName, string assemblyName) \x7b \x7d",
   "    \x7d",
   "",
   "    /// <summary>",
   "    /// Auto-generated attribute requesting name accessors for <typeparamref name=\"T\"/>.",
   "    /// </summary>",
   "    [global::System.AttributeUsage(global::System.AttributeTargets.Assembly, " ++
     "AllowMultiple = true)]",
   "    internal sealed class GenerateNameofAttribute<T> : global::System.Attribute",
   "    \x7b",
   "    \x7d",
   "\x7d"]

def coreText : String := "\n".intercalate coreLines ++ "\n"

end HiddenNames
