import Pipeline.Text.Split

/-!
# A specification to start from

`Spec.starterText` is the text of a small specification with two jobs, one of which depends on
the other.
-/

namespace Pipeline

namespace Spec

/-- The lines of the specification to start from. -/
def starterLines : List String :=
  ["version: \"1\"",
   "jobs:",
   "  - name: build",
   "    image: rust:1.85",
   "    commands:",
   "      - cargo build --release",
   "    caches:",
   "      - key: cargo-registry",
   "        path: /usr/local/cargo/registry",
   "    triggers:",
   "      - type: branch_update",
   "        branches: [main]",
   "",
   "  - name: test",
   "    image: rust:1.85",
   "    commands:",
   "      - cargo test",
   "    job_dependencies:",
   "      - job_name: build",
   "    triggers:",
   "      - type: dependency_finished",
   "    retry_condition: failed",
   "    max_retries: 2",
   "    retry_delay: 30"]

/-- The text of the specification to start from. -/
def starterText : String := Text.joinWith "\n" starterLines ++ "\n"

end Spec

end Pipeline
