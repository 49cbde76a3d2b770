/-!
# Names and limits that several parts agree on
-/

namespace ArchSpec

/-- The provider of authentication; it needs a configuration, and other components. -/
def betterAuth : String := "better-auth"

/-- The provider of authorization; it needs a model and a policy. -/
def casbin : String := "casbin"

/-- The database provider that authentication keeps its tables with. -/
def drizzle : String := "drizzle"

def minPort : Int := 1

def maxPort : Int := 65535

def cacheVersion : String := "1.0"

/-- The name of the configuration file beside a specification. -/
def configFileName : String := "bound.toml"

/-- The output directory when none is configured, relative to the specification. -/
def defaultOutputDirectory : String := "generated"

/-- The cache file when none is configured, relative to the output directory. -/
def defaultCacheFile : String := ".bound/cache.json"

end ArchSpec
