import KlvMetadata.Format.Basic

/-!
# Items of the UAS Datalink Set

What the standard lists, in order of the tags, which start at one and leave
none out. An item's place in the list is therefore its tag, and the lists of
the three ranges are only read joined together.

## Main definitions

* `St0601.Listing`: What the standard says about one tag.
* `St0601.listings`: The items of tags 1 to 142.
-/

namespace KlvMetadata

namespace St0601

/-- What the standard says about one tag. -/
structure Listing where
  /-- The name as one word. -/
  identifier : String
  name : String
  format : Format
  cardinality : Cardinality
  description : String

/-- The range between two numbers. -/
def between (minimum maximum : Rat) : Range :=
  ⟨.ofRat minimum false, .ofRat maximum false⟩

/-- The items of tags 1 to 47. -/
def lowListings : List Listing := [
  { identifier := "Checksum", name := "Checksum"
    format := .unsigned (some 2), cardinality := .exactly 0
    description :=
      "Checksum used to detect errors within a ST 0601 packet." },
  { identifier := "PrecisionTimestamp", name := "Precision Timestamp"
    format := .unsigned (some 8), cardinality := .exactly 1
    description :=
      "Timestamp for all metadata in a ST 0601 local set. Used to coordinate with Motion " ++
      "Imagery." },
  { identifier := "MissionId", name := "Mission ID"
    format := .string none, cardinality := .optional
    description :=
      "Descriptive mission identifier to distinguish an event or sortie." },
  { identifier := "PlatformTailNumber", name := "Platform Tail Number"
    format := .string none, cardinality := .optional
    description :=
      "Identifier of platform as posted." },
  { identifier := "PlatformHeadingAngle", name := "Platform Heading Angle"
    format := .unsignedSteps (between 0 360) 2, cardinality := .optional
    description :=
      "Angle between longitudinal axis and true north measured in the horizontal plane. Angles " ++
      "increase in a clockwise direction when looking from above the platform. Measured in " ++
      "degrees." },
  { identifier := "PlatformPitchAngle", name := "Platform Pitch Angle"
    format := .signedSteps (between (-20) 20) 2, cardinality := .optional
    description :=
      "Angle between longitudinal axis and horizonal plane. Positive angles above horizonal " ++
      "plane. Measured in degrees." },
  { identifier := "PlatformRollAngle", name := "Platform Roll Angle"
    format := .signedSteps (between (-50) 50) 2, cardinality := .optional
    description :=
      "Angle between transverse axis and transverse-longitudinal plane. Measured in degrees." },
  { identifier := "PlatformTrueAirspeed", name := "Platform True Airspeed"
    format := .unsignedSteps (between 0 255) 1, cardinality := .optional
    description :=
      "True airspeed of the platform: indicated airspeed adjusted for temperature and " ++
      "altitude. Measured in meters per second." },
  { identifier := "PlatformIndicatedAirspeed", name := "Platform Indicated Airspeed"
    format := .unsignedSteps (between 0 255) 1, cardinality := .optional
    description :=
      "Indicated airspeed of the platform. Derived from Pitot tube and static pressure " ++
      "sensors. Measured in meters per second." },
  { identifier := "PlatformDesignation", name := "Platform Designation"
    format := .string none, cardinality := .optional
    description :=
      "Model name for the platform. Examples: 'Predator', 'Reaper'." },
  { identifier := "ImageSourceSensor", name := "Image Source Sensor"
    format := .string none, cardinality := .optional
    description :=
      "Name of the currently active sensor. Examples: 'EO Nose', 'TESAR Imagery'." },
  { identifier := "ImageCoordinateSystem", name := "Image Coordinate System"
    format := .string none, cardinality := .optional
    description :=
      "Name of the image coordinate system used." },
  { identifier := "SensorLatitude", name := "Sensor Latitude"
    format := .signedSteps (between (-90) 90) 4, cardinality := .optional
    description :=
      "Latitude of the currently active sensor, based on WGS84 ellipsoid." },
  { identifier := "SensorLongitude", name := "Sensor Longitude"
    format := .signedSteps (between (-180) 180) 4, cardinality := .optional
    description :=
      "Longitude of the currently active sensor, based on WGS84 ellipsoid." },
  { identifier := "SensorTrueAltitude", name := "Sensor True Altitude"
    format := .unsignedSteps (between (-900) 19000) 2, cardinality := .optional
    description :=
      "Altitude of the currently active sensor, relative to Mean Sea Level. Measured in meters." },
  { identifier := "SensorHorizontalFov", name := "Sensor Horizontal Field of View"
    format := .unsignedSteps (between 0 180) 2, cardinality := .optional
    description :=
      "Horizonal field of view of the currently active sensor. Measured in degrees." },
  { identifier := "SensorVerticalFov", name := "Sensor Vertical Field of View"
    format := .unsignedSteps (between 0 180) 2, cardinality := .optional
    description :=
      "Vertical field of view of the currently active sensor. Measured in degrees." },
  { identifier := "SensorRelativeAzimuthAngle", name := "Sensor Relative Azimuth Angle"
    format := .unsignedSteps (between 0 360) 4, cardinality := .optional
    description :=
      "Relative rotation angle of the currently active sensor to the platform longitudinal " ++
      "axis. Measured in degrees." },
  { identifier := "SensorRelativeElevationAngle", name := "Sensor Relative Elevation Angle"
    format := .signedSteps (between (-180) 180) 4, cardinality := .optional
    description :=
      "Relative elevation angle of the currently active sensor to the platform " ++
      "longitudinal-transverse plane. Measured in degrees." },
  { identifier := "SensorRelativeRollAngle", name := "Sensor Relative Roll Angle"
    format := .unsignedSteps (between 0 360) 4, cardinality := .optional
    description :=
      "Relative roll angle of the currently active sensor to the platform. Measured in degrees." },
  { identifier := "SlantRange", name := "Slant Range"
    format := .unsignedSteps (between 0 5000000) 4, cardinality := .optional
    description :=
      "Distance between currently active sensor and the image center. Measured in meters." },
  { identifier := "TargetWidth", name := "Target Width"
    format := .unsignedSteps (between 0 10000) 2, cardinality := .optional
    description :=
      "Target width within sensor field of view. Measured in meters." },
  { identifier := "FrameCenterLatitude", name := "Frame Center Latitude"
    format := .signedSteps (between (-90) 90) 4, cardinality := .optional
    description :=
      "Latitude of image center, based on WGS84 ellipsoid." },
  { identifier := "FrameCenterLongitude", name := "Frame Center Longitude"
    format := .signedSteps (between (-180) 180) 4, cardinality := .optional
    description :=
      "Longitude of image center, based on WGS84 ellipsoid." },
  { identifier := "FrameCenterElevation", name := "Frame Center Elevation"
    format := .unsignedSteps (between (-900) 19000) 2, cardinality := .optional
    description :=
      "Altitude of image center, relative to Mean Sea Level." },
  { identifier := "OffsetCornerLatitudePoint1", name := "Offset Corner Latitude Point 1"
    format := .signedSteps (between (-0.075) 0.075) 2, cardinality := .optional
    description :=
      "Latitude offset for the upper left corner of the image." },
  { identifier := "OffsetCornerLongitudePoint1", name := "Offset Corner Longitude Point 1"
    format := .signedSteps (between (-0.075) 0.075) 2, cardinality := .optional
    description :=
      "Longitude offset for the upper left corner of the image." },
  { identifier := "OffsetCornerLatitudePoint2", name := "Offset Corner Latitude Point 2"
    format := .signedSteps (between (-0.075) 0.075) 2, cardinality := .optional
    description :=
      "Latitude offset for the upper right corner of the image." },
  { identifier := "OffsetCornerLongitudePoint2", name := "Offset Corner Longitude Point 2"
    format := .signedSteps (between (-0.075) 0.075) 2, cardinality := .optional
    description :=
      "Longitude offset for the upper right corner of the image." },
  { identifier := "OffsetCornerLatitudePoint3", name := "Offset Corner Latitude Point 3"
    format := .signedSteps (between (-0.075) 0.075) 2, cardinality := .optional
    description :=
      "Latitude offset for the lower right corner of the image." },
  { identifier := "OffsetCornerLongitudePoint3", name := "Offset Corner Longitude Point 3"
    format := .signedSteps (between (-0.075) 0.075) 2, cardinality := .optional
    description :=
      "Longitude offset for the lower right corner of the image." },
  { identifier := "OffsetCornerLatitudePoint4", name := "Offset Corner Latitude Point 4"
    format := .signedSteps (between (-0.075) 0.075) 2, cardinality := .optional
    description :=
      "Latitude offset for the lower left corner of the image." },
  { identifier := "OffsetCornerLongitudePoint4", name := "Offset Corner Longitude Point 4"
    format := .signedSteps (between (-0.075) 0.075) 2, cardinality := .optional
    description :=
      "Longitude offset for the lower left corner of the image." },
  { identifier := "IcingDetected", name := "Icing Detected"
    format := .code .icingDetected 1, cardinality := .optional
    description :=
      "Flag for whether icing is detected on the aircraft." },
  { identifier := "WindDirection", name := "Wind Direction"
    format := .unsignedSteps (between 0 360) 2, cardinality := .optional
    description :=
      "Wind direction at the aircraft's location relative to true north. Angle increases in a " ++
      "clockwise direction when looking from above the platform. Measured in degrees." },
  { identifier := "WindSpeed", name := "Wind Speed"
    format := .unsignedSteps (between 0 100) 1, cardinality := .optional
    description :=
      "Wind speed at the aircraft's location. Measured in meters per second." },
  { identifier := "StaticPressure", name := "Static Pressure"
    format := .unsignedSteps (between 0 5000) 2, cardinality := .optional
    description :=
      "Static pressure at the aircraft's location. Measured in millibar." },
  { identifier := "DensityAltitude", name := "Density Altitude"
    format := .unsignedSteps (between (-900) 19000) 2, cardinality := .optional
    description :=
      "Density altitude at the aircraft's location. Measured in meters." },
  { identifier := "OutsideAirTemperature", name := "Outside Air Temperature"
    format := .signedSteps (between (-127) 127) 1, cardinality := .optional
    description :=
      "Temperature outside of the aircraft. Measured in degrees Celsius." },
  { identifier := "TargetLocationLatitude", name := "Target Location Latitude"
    format := .signedSteps (between (-90) 90) 4, cardinality := .optional
    description :=
      "Calculated target latitude, based on WGS84 ellipsoid. Tracks crosshair, not image " ++
      "center." },
  { identifier := "TargetLocationLongitude", name := "Target Location Longitude"
    format := .signedSteps (between (-180) 180) 4, cardinality := .optional
    description :=
      "Calculated target longitude, based on WGS84 ellipsoid. Tracks crosshair, not image " ++
      "center." },
  { identifier := "TargetLocationElevation", name := "Target Location Elevation"
    format := .unsignedSteps (between (-900) 19000) 2, cardinality := .optional
    description :=
      "Calculated target altitude, relative to Mean Sea Level. Tracks crosshair, not image " ++
      "center. Measured in meters." },
  { identifier := "TargetTrackGateWidth", name := "Target Track Gate Width"
    format := .unsignedSteps (between 0 510) 1, cardinality := .optional
    description :=
      "Width of box around tracked target. Measured in pixels." },
  { identifier := "TargetTrackGateHeight", name := "Target Track Gate Height"
    format := .unsignedSteps (between 0 510) 1, cardinality := .optional
    description :=
      "Height of box around tracked target. Measured in pixels." },
  { identifier := "TargetErrorEstimateCe90", name := "Target Error Estimate - CE90"
    format := .unsignedSteps (between 0 4095) 2, cardinality := .optional
    description :=
      "Radius of 90% confidence for the target location in the horizonal direction. Measured " ++
      "in meters." },
  { identifier := "TargetErrorEstimateLe90", name := "Target Error Estimate - LE90"
    format := .unsignedSteps (between 0 4095) 2, cardinality := .optional
    description :=
      "Radius of 90% confidence for the target location in the vertical direction. Measured in " ++
      "meters." },
  { identifier := "GenericFlagData", name := "Generic Flag Data"
    format := .unsigned (some 1), cardinality := .optional
    description :=
      "Bits representing miscellaneous boolean values." }]

/-- The items of tags 48 to 94. -/
def middleListings : List Listing := [
  { identifier := "SecurityLocalSet", name := "Security Local Set"
    format := .blob none, cardinality := .optional
    description :=
      "MISB ST 0102 local set for security metadata." },
  { identifier := "DifferentialPressure", name := "Differential Pressure"
    format := .unsignedSteps (between 0 5000) 2, cardinality := .optional
    description :=
      "Differential pressure at the aircraft's location. Equal to total pressure minus static " ++
      "pressure. Measured in millibar." },
  { identifier := "PlatformAngleOfAttack", name := "Platform Angle of Attack"
    format := .signedSteps (between (-20) 20) 2, cardinality := .optional
    description :=
      "Vertical angle between the platform longitudinal axis and the relative wind. Measured " ++
      "in degrees." },
  { identifier := "PlatformVerticalSpeed", name := "Platform Vertical Speed"
    format := .signedSteps (between (-180) 180) 2, cardinality := .optional
    description :=
      "Vertical speed of aircraft in the zenith direction. Measured in meters per second." },
  { identifier := "PlatformSideslipAngle", name := "Platform Sideslip Angle"
    format := .signedSteps (between (-20) 20) 2, cardinality := .optional
    description :=
      "Horizontal angle between the platform longitudinal axis and the relative wind. Angle " ++
      "increases in a clockwise direction when looking from above the platform. Measured in " ++
      "degrees." },
  { identifier := "AirfieldBarometricPressure", name := "Airfield Barometric Pressure"
    format := .unsignedSteps (between 0 5000) 2, cardinality := .optional
    description :=
      "Local pressure at the airfield. Measured in millibar." },
  { identifier := "AirfieldElevation", name := "Airfield Elevation"
    format := .unsignedSteps (between (-900) 19000) 2, cardinality := .optional
    description :=
      "Altitude of the airfield, relative to Mean Sea Level. Measured in meters." },
  { identifier := "RelativeHumidity", name := "Relative Humidity"
    format := .unsignedSteps (between 0 100) 1, cardinality := .optional
    description :=
      "Relative humidity at the aircraft location. Ratio between the current water vapor " ++
      "density and the saturation point of water vapor density. Measured in percent." },
  { identifier := "PlatformGroundSpeed", name := "Platform Ground Speed"
    format := .unsignedSteps (between 0 255) 1, cardinality := .optional
    description :=
      "Speed of the aircraft when projected onto the ground plane." },
  { identifier := "GroundRange", name := "Ground Range"
    format := .unsignedSteps (between 0 5000000) 4, cardinality := .optional
    description :=
      "Horizontal distance between the aircraft and the target of interest." },
  { identifier := "PlatformFuelRemaining", name := "Platform Fuel Remaining"
    format := .unsignedSteps (between 0 10000) 2, cardinality := .optional
    description :=
      "Current weight of fuel present on the aircraft. Measured in kilograms." },
  { identifier := "PlatformCallSign", name := "Platform Call Sign"
    format := .string none, cardinality := .optional
    description :=
      "Call sign of the platform or operating unit." },
  { identifier := "WeaponLoad", name := "Weapon Load"
    format := .unsigned (some 2), cardinality := .optional
    description :=
      "Current weapons stored on aircraft. Deprecated by Item 140 (Weapon Stores)." },
  { identifier := "WeaponFired", name := "Weapon Fired"
    format := .unsigned (some 1), cardinality := .optional
    description :=
      "Signal when a particular weapon is released." },
  { identifier := "LaserPrfCode", name := "Laser PRF Code"
    format := .unsigned (some 2), cardinality := .optional
    description :=
      "A laser's pulse repetition frequency used to mark a target. Three or four digit number " ++
      "with digits 1-8." },
  { identifier := "SensorFovName", name := "Sensor Field of View Name"
    format := .code .sensorFovName 1, cardinality := .optional
    description :=
      "Current lens type." },
  { identifier := "PlatformMagneticHeading", name := "Platform Magnetic Heading"
    format := .unsignedSteps (between 0 360) 2, cardinality := .optional
    description :=
      "Angle between longitudingal axis and Magnetic North measured in the horizontal plane. " ++
      "Measured in degrees." },
  { identifier := "VersionNumber", name := "UAS Datalink LS Version Number"
    format := .unsigned (some 1), cardinality := .exactly 1
    description :=
      "Major version of MISB ST 0601 used as the source standard when encoding this local set." },
  { identifier := "Deprecated", name := "Deprecated Tag"
    format := .blob none, cardinality := .exactly 0
    description :=
      "This item is deprecated." },
  { identifier := "AlternatePlatformLatitude", name := "Alternate Platform Latitude"
    format := .signedSteps (between (-90) 90) 4, cardinality := .optional
    description :=
      "Latitude of the platform connected to the UAS via direct datalink." },
  { identifier := "AlternatePlatformLongitude", name := "Alternate Platform Longitude"
    format := .signedSteps (between (-180) 180) 4, cardinality := .optional
    description :=
      "Longitude of the platform connected to the UAS via direct datalink." },
  { identifier := "AlternatePlatformAltitude", name := "Alternate Platform Altitude"
    format := .unsignedSteps (between (-900) 19000) 2, cardinality := .optional
    description :=
      "Altitude of the platform connected to the UAS via direct datalink." },
  { identifier := "AlternatePlatformName", name := "Alternate Platform Name"
    format := .string none, cardinality := .optional
    description :=
      "Name of the platform connected to the UAS via direct datalink. Examples: 'Apache', " ++
      "'Rover'." },
  { identifier := "AlternatePlatformHeading", name := "Alternate Platform Heading"
    format := .unsignedSteps (between 0 360) 2, cardinality := .optional
    description :=
      "Heading angle of the platform connected to the UAS via direct datalink." },
  { identifier := "EventStartTime", name := "Event Start Time"
    format := .unsigned (some 8), cardinality := .optional
    description :=
      "Start time of scene, project, event, mission, editing event, license, publication, etc, " ++
      "represented in the number of UTC microseconds elapsed since midnight, January 1, 1970." },
  { identifier := "RvtLocalSet", name := "RVT Local Set"
    format := .blob none, cardinality := .optional
    description :=
      "MISB ST 0806 local set for remote video terminals." },
  { identifier := "VmtiLocalSet", name := "VMTI Local Set"
    format := .blob none, cardinality := .optional
    description :=
      "MISB ST 0903 local set for the video moving target indicator." },
  { identifier := "SensorEllipsoidHeight", name := "Sensor Ellipsoid Height"
    format := .unsignedSteps (between (-900) 19000) 2, cardinality := .optional
    description :=
      "Altitude of the currently active sensor, relative to the WGS84 ellipsoid." },
  { identifier := "AlternatePlatformEllipsoidHeight", name := "Alternate Platform Ellipsoid Height"
    format := .unsignedSteps (between (-900) 19000) 2, cardinality := .optional
    description :=
      "Altitude of the platform connected to the UAS via direct datalink, relative to the " ++
      "WGS84 ellipsoid." },
  { identifier := "OperationalMode", name := "Operational Mode"
    format := .code .operationalMode 1, cardinality := .optional
    description :=
      "Mode of operation of the event portrayed in the Motion Imagery." },
  { identifier := "FrameCenterHeightAboveEllipsoid", name := "Frame Center Height Above Ellipsoid"
    format := .unsignedSteps (between (-900) 19000) 2, cardinality := .optional
    description :=
      "Altitude of frame center, relative to the WGS84 ellipsoid." },
  { identifier := "SensorNorthVelocity", name := "Sensor North Velocity"
    format := .signedSteps (between (-327) 327) 2, cardinality := .optional
    description :=
      "Northing velocity of the sensor or platform." },
  { identifier := "SensorEastVelocity", name := "Sensor East Velocity"
    format := .signedSteps (between (-327) 327) 2, cardinality := .optional
    description :=
      "Easting velocity of the sensor or platform." },
  { identifier := "ImageHorizonPixelPack", name := "Image Horizon Pixel Pack"
    format := .blob none, cardinality := .optional
    description :=
      "Location of earth-sky horizon in the image." },
  { identifier := "FullCornerLatitudePoint1", name := "Corner Latitude Point 1 (Full)"
    format := .signedSteps (between (-90) 90) 4, cardinality := .optional
    description :=
      "Latitude for the upper left corner of the image." },
  { identifier := "FullCornerLongitudePoint1", name := "Corner Longitude Point 1 (Full)"
    format := .signedSteps (between (-180) 180) 4, cardinality := .optional
    description :=
      "Longitude for the upper left corner of the image." },
  { identifier := "FullCornerLatitudePoint2", name := "Corner Latitude Point 2 (Full)"
    format := .signedSteps (between (-90) 90) 4, cardinality := .optional
    description :=
      "Latitude for the upper right corner of the image." },
  { identifier := "FullCornerLongitudePoint2", name := "Corner Longitude Point 2 (Full)"
    format := .signedSteps (between (-180) 180) 4, cardinality := .optional
    description :=
      "Longitude for the upper right corner of the image." },
  { identifier := "FullCornerLatitudePoint3", name := "Corner Latitude Point 3 (Full)"
    format := .signedSteps (between (-90) 90) 4, cardinality := .optional
    description :=
      "Latitude for the lower right corner of the image." },
  { identifier := "FullCornerLongitudePoint3", name := "Corner Longitude Point 3 (Full)"
    format := .signedSteps (between (-180) 180) 4, cardinality := .optional
    description :=
      "Longitude for the lower right corner of the image." },
  { identifier := "FullCornerLatitudePoint4", name := "Corner Latitude Point 4 (Full)"
    format := .signedSteps (between (-90) 90) 4, cardinality := .optional
    description :=
      "Latitude for the lower left corner of the image." },
  { identifier := "FullCornerLongitudePoint4", name := "Corner Longitude Point 4 (Full)"
    format := .signedSteps (between (-180) 180) 4, cardinality := .optional
    description :=
      "Longitude for the lower left corner of the image." },
  { identifier := "FullPlatformPitchAngle", name := "Platform Pitch Angle (Full)"
    format := .signedSteps (between (-90) 90) 4, cardinality := .optional
    description :=
      "Angle between longitudinal axis and horizonal plane. Positive angles above horizonal " ++
      "plane. Measured in degrees." },
  { identifier := "FullPlatformRollAngle", name := "Platform Roll Angle (Full)"
    format := .signedSteps (between (-90) 90) 4, cardinality := .optional
    description :=
      "Angle between transverse axis and transverse-longitudinal plane. Measured in degrees." },
  { identifier := "FullPlatformAngleOfAttack", name := "Platform Angle of Attack (Full)"
    format := .signedSteps (between (-90) 90) 4, cardinality := .optional
    description :=
      "Vertical angle between the platform longitudinal axis and the relative wind. Measured " ++
      "in degrees." },
  { identifier := "FullPlatformSideslipAngle", name := "Platform Sideslip Angle (Full)"
    format := .signedSteps (between (-180) 180) 4, cardinality := .optional
    description :=
      "Horizontal angle between the platform longitudinal axis and the relative wind. Angle " ++
      "increases in a clockwise direction when looking from above the platform. Measured in " ++
      "degrees." },
  { identifier := "MiisCoreIdentifier", name := "MIIS Core Identifier"
    format := .blob (some 34), cardinality := .optional
    description :=
      "Binary value of MISB ST 1201 core identifier." }]

/-- The items of tags 95 to 142. -/
def highListings : List Listing := [
  { identifier := "SarMotionImageryLocalSet", name := "SAR Motion Imagery Local Set"
    format := .blob none, cardinality := .optional
    description :=
      "MISB ST 1206 local set for synthetic aperture radar Motion Imagery." },
  { identifier := "TargetWidthExtended", name := "Target Width Extended"
    format := .imap (between 0 1500000) 3, cardinality := .optional
    description :=
      "Target width within sensor field of view. Measured in meters." },
  { identifier := "RangeImageLocalSet", name := "Range Image Local Set"
    format := .blob none, cardinality := .optional
    description :=
      "MISB ST 1002 local set for range images." },
  { identifier := "GeoregistrationLocalSet", name := "Geo-Registration Local Set"
    format := .blob none, cardinality := .optional
    description :=
      "MISB ST 1601 local set for geo-registration." },
  { identifier := "CompositeImagingLocalSet", name := "Composite Imaging Local Set"
    format := .blob none, cardinality := .optional
    description :=
      "MISB ST 1602 local set for composite imaging." },
  { identifier := "SegmentLocalSet", name := "Segment Local Set"
    format := .blob none, cardinality := .any
    description :=
      "MISB ST 1607 Segment local set for metadata sharing across parent and child sets." },
  { identifier := "AmendLocalSet", name := "Amend Local Set"
    format := .blob none, cardinality := .any
    description :=
      "MISB ST 1607 Amend local set for metadata corrections." },
  { identifier := "SdccFlp", name := "SDCC-FLP"
    format := .blob none, cardinality := .any
    description :=
      "MISB ST 101 floating length pack for standard deviation and cross-correlation metadata." },
  { identifier := "DensityAltitudeExtended", name := "Density Altitude Extended"
    format := .imap (between (-900) 40000) 3, cardinality := .optional
    description :=
      "Density altitude at the aircraft's location. Measured in meters." },
  { identifier := "SensorEllipsoidHeightExtended", name := "Sensor Ellipsoid Height Extended"
    format := .imap (between (-900) 40000) 3, cardinality := .optional
    description :=
      "Altitude of the currently active sensor, relative to the WGS84 ellipsoid." },
  { identifier := "AlternatePlatformEllipsoidHeightExtended"
    name := "Alternate Platform Ellipsoid Height Extended"
    format := .imap (between (-900) 40000) 3, cardinality := .optional
    description :=
      "Altitude of the platform connected to the UAS via direct datalink, relative to the " ++
      "WGS84 ellipsoid." },
  { identifier := "StreamDesignator", name := "Stream Designator"
    format := .string none, cardinality := .optional
    description :=
      "Shorthand descriptor for a particular Motion Imagery data stream, typically delivered " ++
      "over IP." },
  { identifier := "OperationalBase", name := "Operational Base"
    format := .string none, cardinality := .optional
    description :=
      "Indicates the location for the launch recovery equipment." },
  { identifier := "BroadcastSource", name := "Broadcast Source"
    format := .string none, cardinality := .optional
    description :=
      "Location where the Motion Imagery is first broadcast. Examples: 'Creech', 'Cannon'." },
  { identifier := "RangeToRecoveryLocation", name := "Range to Recovery Location"
    format := .imap (between 0 21000) 3, cardinality := .optional
    description :=
      "Distance from current position to airframe recovery position. Measured in kilometers." },
  { identifier := "TimeAirborne", name := "Time Airborne"
    format := .unsigned none, cardinality := .optional
    description :=
      "Number of seconds the aircraft has been airborne." },
  { identifier := "PropulsionUnitSpeed", name := "Propulsion Unit Speed"
    format := .unsigned none, cardinality := .optional
    description :=
      "Speed at which the engine or motor is rotating." },
  { identifier := "PlatformCourseAngle", name := "Platform Course Angle"
    format := .imap (between 0 360) 2, cardinality := .optional
    description :=
      "Angle between aircraft velocity vector and true north measured in the horizontal plane. " ++
      "Angles increase in a clockwise direction when looking from above the platform. Measured " ++
      "in degrees." },
  { identifier := "AltitudeAboveGroundLevel", name := "Altitude Above Ground Level"
    format := .imap (between (-900) 40000) 3, cardinality := .optional
    description :=
      "Vertical distance between the aircraft and the ground or water. Measured in meters." },
  { identifier := "RadarAltimeter", name := "Radar Altimeter"
    format := .imap (between (-900) 40000) 3, cardinality := .optional
    description :=
      "Vertical distance between the aircraft and the ground or water, as measured by a radar " ++
      "altimeter." },
  { identifier := "ControlCommand", name := "Control Command"
    format := .command, cardinality := .any
    description :=
      "Record of command from ground control station to aircraft." },
  { identifier := "ControlCommandVerificationList", name := "Control Command Verification List"
    format := .blob none, cardinality := .optional
    description :=
      "Acknowledgement from the platform that one or more control commands were received." },
  { identifier := "SensorAzimuthRate", name := "Sensor Azimuth Rate"
    format := .imap (between (-1000) 1000) 3, cardinality := .optional
    description :=
      "Rate at which the sensor is rotating clockwise, when looking down from above the " ++
      "aircraft. Measured in degrees per second." },
  { identifier := "SensorElevationRate", name := "Sensor Elevation Rate"
    format := .imap (between (-1000) 1000) 3, cardinality := .optional
    description :=
      "Rate at which the sensor is rotating clockwise, when looking at the aircraft from the " ++
      "side such that the aircraft is pointing left. Measured in degrees per second." },
  { identifier := "SensorRollRate", name := "Sensor Roll Rate"
    format := .imap (between (-1000) 1000) 3, cardinality := .optional
    description :=
      "Rate at which the sensor is rotating clockwise, when looking from behind the sensor. " ++
      "Measured in degrees per second." },
  { identifier := "OnboardMiStoragePercentFull", name := "On-board MI Storage Percent Full"
    format := .imap (between 0 100) 2, cardinality := .optional
    description :=
      "Amount of on-board Motion Imagery storage used as a percentage of total storage." },
  { identifier := "ActiveWavelengthList", name := "Active Wavelength List"
    format := .blob none, cardinality := .optional
    description :=
      "List of wavelengths used by the sensor to generate the Motion Imagery." },
  { identifier := "CountryCodes", name := "Country Codes"
    format := .blob none, cardinality := .optional
    description :=
      "Countries which are associated with the platform and its operation." },
  { identifier := "NumberOfNavsatsInView", name := "Number of NAVSATs in View"
    format := .unsigned (some 1), cardinality := .optional
    description :=
      "Number of satellites used to determine position." },
  { identifier := "PositioningMethodSource", name := "Positioning Method Source"
    format := .blob (some 1), cardinality := .optional
    description :=
      "Source of the navigation positioning information." },
  { identifier := "PlatformStatus", name := "Platform Status"
    format := .code .platformStatus 1, cardinality := .optional
    description :=
      "Operational mode of the platform." },
  { identifier := "SensorControlMode", name := "Sensor Control Mode"
    format := .code .sensorControlMode 1, cardinality := .optional
    description :=
      "Sensor control operational status." },
  { identifier := "SensorFrameRatePack", name := "Sensor Frame Rate Pack"
    format := .frameRate, cardinality := .optional
    description :=
      "Frame rate of the Motion Imagery at the sensor." },
  { identifier := "WavelengthsList", name := "Wavelengths List"
    format := .blob none, cardinality := .optional
    description :=
      "List of wavelength bands provided by all available sensors." },
  { identifier := "TargetId", name := "Target ID"
    format := .string none, cardinality := .optional
    description :=
      "Alpha-numeric identification of the target." },
  { identifier := "AirbaseLocations", name := "Airbase Locations"
    format := .blob none, cardinality := .optional
    description :=
      "Geographic location of take-off and recovery site." },
  { identifier := "TakeoffTime", name := "Take-off Time"
    format := .unsigned none, cardinality := .optional
    description :=
      "Time when aircraft became airborne." },
  { identifier := "TransmissionFrequency", name := "Transmission Frequency"
    format := .imap (between 1 99999) 3, cardinality := .optional
    description :=
      "Radio frequency used to transmit the Motion Imagery. Measured in megahertz." },
  { identifier := "OnboardMiStorageCapacity", name := "On-board MI Storage Capacity"
    format := .unsigned none, cardinality := .optional
    description :=
      "Total capacity of on-board Motion Imagery storage. Measured in gigabytes." },
  { identifier := "ZoomPercentage", name := "Zoom Percentage"
    format := .imap (between 0 100) 1, cardinality := .optional
    description :=
      "For a variable zoom system, the current percentage of zoom." },
  { identifier := "CommunicationsMethod", name := "Communications Method"
    format := .string none, cardinality := .optional
    description :=
      "Type of communications used with platform" },
  { identifier := "LeapSeconds", name := "Leap Seconds"
    format := .signed none, cardinality := .optional
    description :=
      "Number of leap seconds to adjust Precision Timestamp (Item 2) to UTC." },
  { identifier := "CorrectionOffset", name := "Correction Offset"
    format := .signed none, cardinality := .optional
    description :=
      "Post-flight time adjustment for Precision Timestamp (Item 2) as needed." },
  { identifier := "PayloadList", name := "Payload List"
    format := .blob none, cardinality := .optional
    description :=
      "List of payloads available on platform." },
  { identifier := "ActivePayloads", name := "Active Payloads"
    format := .blob none, cardinality := .optional
    description :=
      "List of currently active payloads from the payload list (Item 138)." },
  { identifier := "WeaponsStores", name := "Weapons Stores"
    format := .blob none, cardinality := .optional
    description :=
      "List of weapon stores and statuses." },
  { identifier := "WaypointList", name := "Waypoint List"
    format := .blob none, cardinality := .optional
    description :=
      "List of navigational waypoints and their statuses." },
  { identifier := "ViewDomain", name := "View Domain"
    format := .blob none, cardinality := .optional
    description :=
      "Specifies range of possible sensor relative azimuth, elevation, and roll values." }]

/-- The items of all tags, that of tag one first. -/
def listings : List Listing := lowListings ++ middleListings ++ highListings

end St0601

end KlvMetadata
