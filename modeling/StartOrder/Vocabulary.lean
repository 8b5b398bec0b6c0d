/-!
# The vocabulary of contracts

The namespaces, attributes and directives that this library gives a meaning, and the region that
everybody sees.
-/

namespace StartOrder.Vocabulary

/-- The namespace of exported and imported packages, and the attribute that names the package. -/
def package : String := "osgi.wiring.package"

/-- The namespace in which a module is required whole. -/
def bundle : String := "osgi.wiring.bundle"

/-- The namespace in which a fragment requires its host. -/
def host : String := "osgi.wiring.host"

/-- The attribute that holds the version of a package. -/
def version : String := "version"

/-- The attribute that holds the symbolic name of the exporting module. -/
def bundleSymbolicName : String := "bundle-symbolic-name"

/-- The attribute that holds the version of the module. -/
def bundleVersion : String := "bundle-version"

/-- The directive that holds the match expression of a requirement. -/
def filter : String := "filter"

/-- The directive that says whether a requirement may stay open. -/
def resolution : String := "resolution"

/-- The value of `resolution` under which a requirement may stay open. -/
def optional : String := "optional"

/-- The directive that says when a requirement counts. -/
def effective : String := "effective"

/-- The value of `effective` under which a requirement takes part in resolution. -/
def resolve : String := "resolve"

/-- The region whose packages every feature sees. -/
def globalRegion : String := "global"

end StartOrder.Vocabulary
