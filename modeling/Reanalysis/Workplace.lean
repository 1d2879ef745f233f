/-
A site with its life cycle, and with what its files were when they were last
scanned.
-/

import Reanalysis.Site

namespace Reanalysis

structure Workplace where
  session : Session
  site : Site
  scanned : Snapshot

namespace Workplace

def new (site : Site) : Workplace := ⟨site.session, site, PathMap.empty⟩

def withTree (place : Workplace) (tree : FileTree) : Workplace :=
  { place with site := { place.site with tree := tree } }

def outcome? (place : Workplace) (report : Nat) : Option Outcome :=
  place.session.life.outcome? report

def carry (place : Workplace) (next : Session × Site) : Workplace :=
  { place with session := next.1, site := next.2 }

def idle (place : Workplace) : Workplace :=
  place.carry (place.session.idle Site.reporters place.site)

def trigger (place : Workplace) (change : Change) : Workplace :=
  place.carry (place.session.trigger Site.reporters change place.site)

/-- Triggers one cycle for each change before the first of them gets to run, and runs them
all until they have settled. -/
def settle (place : Workplace) (changes : List Change) : Workplace :=
  (changes.foldl trigger place).idle

def teardown (place : Workplace) : Workplace :=
  (place.carry (place.session.teardown Site.reporters place.site).2).idle

/-- Has the session hear its host. Answers with what was announced. -/
def hear (place : Workplace) (event : HostEvent) : Workplace × List Announcement :=
  let heard := { place with session := place.session.post event }.idle
  ({ heard with site := { heard.site with announced := [] } }, heard.site.announced)

/-- Looks at the files again. Answers with what has become of them since the last time. -/
def scan (place : Workplace) : Except ConfigError (Difference × Workplace) :=
  (place.site.project.snapshot place.site.tree).map fun current =>
    (Difference.between current place.scanned, { place with scanned := current })

end Workplace

end Reanalysis
